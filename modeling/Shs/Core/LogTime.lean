import Mathlib.Data.List.Induction
import Shs.Core.Decimal
import Shs.Lib.Memory
import Shs.Lib.Run

/-!
# Core.LogTime

The cached log time of `shs_time.cc`: `time_update` writes the time as a text into a row of
`shs_cache_log_time` and publishes the row through `shs_err_log_time`. The rows are taken by turns,
so that readers of the row published before are left alone.

`slot ^= (CACHE_TIME_SLOT - 1)` does not reduce `slot` to the rows but takes it back and forth
between two of them, and a row has no room for the milliseconds. `Rotates` is what the rows are for.
-/

namespace Shs
namespace LogTime

open Region

def CACHE_TIME_SLOT : UInt32 := 64

/-- `sizeof("1970/09/28 12:00:00")`. -/
def rowSize : Nat := 20

/-- `struct timeval`. -/
structure Timeval where
  sec  : Int64
  usec : Int64

/-- `struct tm`, as far as it is read. -/
structure Tm where
  sec  : Int32
  min  : Int32
  hour : Int32
  mday : Int32
  mon  : Int32
  year : Int32

/-- `%<width>d`. -/
def spaced (width : Nat) (v : Int) : Bytes :=
  List.replicate (width - (decimal v).length) SP ++ decimal v

/-- `%0<width>d`, with the zeros behind the sign. -/
def zeroed (width : Nat) (v : Int) : Bytes :=
  let zeros := List.replicate (width - (decimal v).length) 48
  if v < 0 then 45 :: (zeros ++ digits v.natAbs) else zeros ++ digits v.natAbs

/-- The text that `sprintf` makes of `"%4d/%02d/%02d %02d:%02d:%02d.%04d"`. -/
def logText (tm : Tm) (msec : Int32) : Bytes :=
  spaced 4 tm.year.toInt ++ str "/" ++ zeroed 2 tm.mon.toInt ++ str "/" ++
    zeroed 2 tm.mday.toInt ++ str " " ++ zeroed 2 tm.hour.toInt ++ str ":" ++
    zeroed 2 tm.min.toInt ++ str ":" ++ zeroed 2 tm.sec.toInt ++ str "." ++ zeroed 4 msec.toInt

/-- `string_t`, with the distance of `data` from `shs_cache_log_time`. -/
structure LogString where
  data : Option Nat
  len  : Nat

/-- The static variables of the file. -/
structure Clock where
  slot        : UInt32 := 0
  cache       : Nat → Byte := fun _ => 0
  currentMsec : Int64 := 0
  errLogTime  : LogString
  time        : Timeval := ⟨0, 0⟩

/-- What `time_update` has written into a row. -/
structure Publication where
  slot : UInt32
  text : Bytes

/-- The bytes that `sprintf` has written, the terminator included. -/
def Publication.region (p : Publication) : Region := ⟨p.slot.toNat * rowSize, p.text.length + 1⟩

/-- `shs_cache_log_time[slot]`. -/
def row (slot : UInt32) : Region := ⟨slot.toNat * rowSize, rowSize⟩

section Code

-- `localtime_r`
variable (localtimeR : Int64 → Tm)

def timeLocaltime (s : Int64) : Tm :=
  let tm := localtimeR s
  { tm with mon := tm.mon + 1, year := tm.year + 1900 }

/-- `time_update`, at the time `now`; `held` when another thread has the lock. -/
def timeUpdate (s : Clock) (held : Bool) (now : Timeval) : Clock × Option Publication :=
  if held then (s, none)
  else
    let msec := (now.usec / 1000).toUInt64.toUInt32
    let currentMsec := now.sec * 1000 + msec.toUInt64.toInt64
    let nmsec := s.time.sec * 1000 + s.time.usec / 1000
    if currentMsec - nmsec < 10 then ({ s with currentMsec := currentMsec }, none)
    else
      let slot := (s.slot + 1) ^^^ (CACHE_TIME_SLOT - 1)
      let text := logText (timeLocaltime localtimeR now.sec) msec.toInt32
      let p0 := slot.toNat * rowSize
      ({ slot := slot
         cache := Memory.write s.cache p0 (text ++ [NUL])
         currentMsec := currentMsec
         errLogTime := { s.errLogTime with data := some p0 }
         time := now }, some ⟨slot, text⟩)

/-- A call of `time_update`. -/
structure Call where
  held : Bool
  now  : Timeval

/-- The clock and what has been published, in order. -/
structure State where
  clock     : Clock
  published : List Publication := []

def step (s : State) (c : Call) : State :=
  let r := timeUpdate localtimeR s.clock c.held c.now
  ⟨r.1, s.published ++ r.2.toList⟩

/-- The state in which `time_init` calls `time_update`. -/
def start : State := { clock := { errLogTime := ⟨none, 24⟩ } }

end Code

/-! ## What the rows are for -/

/-- Each text stays in its row. -/
def Fits (ps : List Publication) : Prop := ∀ p ∈ ps, Within p.region (row p.slot)

/-- No text is written over by the next `CACHE_TIME_SLOT - 2` updates. -/
def Kept (ps : List Publication) : Prop :=
  ∀ i j p q, ps[i]? = some p → ps[j]? = some q → i < j → j ≤ i + (CACHE_TIME_SLOT.toNat - 2) →
    Apart p.region q.region

structure Rotates (ps : List Publication) : Prop where
  inside : ∀ p ∈ ps, p.slot < CACHE_TIME_SLOT
  fits   : Fits ps
  kept   : Kept ps

/-! ## Texts -/

theorem decimal_length {v : Int} (hlo : -2 ^ 31 ≤ v) (hhi : v < 2 ^ 31) :
    (decimal v).length ≤ 11 := by
  have hdigits : (digits v.natAbs).length ≤ 10 := digits_length_le (by decide) (by omega)
  rcases decimal_cases v with ⟨-, hd⟩ | ⟨-, hd⟩
  · rw [hd]
    omega
  · rw [hd, List.length_cons]
    omega

theorem spaced_length (width : Nat) (v : Int) :
    (spaced width v).length = max width (decimal v).length := by
  rw [spaced, List.length_append, List.length_replicate]
  omega

theorem zeroed_length (width : Nat) (v : Int) :
    (zeroed width v).length = max width (decimal v).length := by
  rw [zeroed]
  rcases decimal_cases v with ⟨hv, hd⟩ | ⟨hv, hd⟩
  · rw [if_neg (Int.not_lt.2 hv), hd, List.length_append, List.length_replicate]
    omega
  · rw [if_pos hv, hd, List.length_cons, List.length_append, List.length_replicate,
      List.length_cons]
    omega

theorem spaced_bounds {width : Nat} (hw : width ≤ 11) (v : Int32) :
    width ≤ (spaced width v.toInt).length ∧ (spaced width v.toInt).length ≤ 11 := by
  rw [spaced_length]
  exact ⟨Nat.le_max_left _ _, Nat.max_le.2 ⟨hw, decimal_length v.le_toInt v.toInt_lt⟩⟩

theorem zeroed_bounds {width : Nat} (hw : width ≤ 11) (v : Int32) :
    width ≤ (zeroed width v.toInt).length ∧ (zeroed width v.toInt).length ≤ 11 := by
  rw [zeroed_length]
  exact ⟨Nat.le_max_left _ _, Nat.max_le.2 ⟨hw, decimal_length v.le_toInt v.toInt_lt⟩⟩

theorem logText_length (tm : Tm) (msec : Int32) :
    24 ≤ (logText tm msec).length ∧ (logText tm msec).length ≤ 83 := by
  have hyear := spaced_bounds (show 4 ≤ 11 by omega) tm.year
  have htwo : ∀ v : Int32, 2 ≤ (zeroed 2 v.toInt).length ∧ (zeroed 2 v.toInt).length ≤ 11 :=
    zeroed_bounds (by omega)
  have hmon := htwo tm.mon
  have hmday := htwo tm.mday
  have hhour := htwo tm.hour
  have hmin := htwo tm.min
  have hsec := htwo tm.sec
  have hmsec := zeroed_bounds (show 4 ≤ 11 by omega) msec
  have hstr : (str "/").length = 1 ∧ (str " ").length = 1 ∧ (str ":").length = 1 ∧
      (str ".").length = 1 := by decide
  simp only [logText, List.length_append, hstr]
  omega

/-! ## The slots -/

/-- `slot` behind `n` updates. -/
def slotAt (n : Nat) : UInt32 := if n % 2 = 0 then 0 else 62

theorem slotAt_succ (n : Nat) : (slotAt n + 1) ^^^ (CACHE_TIME_SLOT - 1) = slotAt (n + 1) := by
  unfold slotAt
  rcases Nat.mod_two_eq_zero_or_one n with h | h
  · rw [if_pos h, if_neg (by omega)]
    rfl
  · rw [if_neg (by omega), if_pos (by omega)]
    rfl

theorem slotAt_cases (n : Nat) :
    (slotAt n = 0 ∧ slotAt (n + 1) = 62) ∨ (slotAt n = 62 ∧ slotAt (n + 1) = 0) := by
  unfold slotAt
  rcases Nat.mod_two_eq_zero_or_one n with h | h
  · exact .inl ⟨if_pos h, if_neg (by omega)⟩
  · exact .inr ⟨if_neg (by omega), if_pos (by omega)⟩

/-! ## One update -/

section Step

variable {localtimeR : Int64 → Tm} {s : State} {c : Call}

/-- What a call does: nothing but note the time, or publish a text in the next slot. -/
theorem step_cases (localtimeR : Int64 → Tm) (s : State) (c : Call) :
    ((step localtimeR s c).published = s.published ∧
      (step localtimeR s c).clock.slot = s.clock.slot ∧
      (step localtimeR s c).clock.cache = s.clock.cache ∧
      (step localtimeR s c).clock.errLogTime = s.clock.errLogTime) ∨
    ∃ p : Publication, p.slot = (s.clock.slot + 1) ^^^ (CACHE_TIME_SLOT - 1) ∧
      24 ≤ p.text.length ∧ p.text.length ≤ 83 ∧
      (step localtimeR s c).published = s.published ++ [p] ∧
      (step localtimeR s c).clock.slot = p.slot ∧
      (step localtimeR s c).clock.cache =
        Memory.write s.clock.cache p.region.start (p.text ++ [NUL]) ∧
      (step localtimeR s c).clock.errLogTime =
        { s.clock.errLogTime with data := some p.region.start } := by
  unfold step timeUpdate
  by_cases hheld : c.held = true
  · rw [if_pos hheld]
    exact .inl ⟨List.append_nil _, rfl, rfl, rfl⟩
  rw [if_neg hheld]
  simp only
  split
  · exact .inl ⟨List.append_nil _, rfl, rfl, rfl⟩
  · obtain ⟨hlo, hhi⟩ := logText_length (timeLocaltime localtimeR c.now.sec)
      (c.now.usec / 1000).toUInt64.toUInt32.toInt32
    exact .inr ⟨⟨_, _⟩, rfl, hlo, hhi, rfl, rfl, rfl, rfl⟩

end Step

/-! ## Whole runs -/

/-- The slots so far, and the texts of the last two updates at their places. -/
structure Inv (s : State) : Prop where
  slot  : s.clock.slot = slotAt s.published.length
  slots : ∀ i p, s.published[i]? = some p → p.slot = slotAt (i + 1)
  sized : ∀ p ∈ s.published, 24 ≤ p.text.length ∧ p.text.length ≤ 83
  texts : ∀ i p, s.published[i]? = some p → s.published.length ≤ i + 2 →
    Memory.read s.clock.cache p.region.start p.region.size = p.text ++ [NUL]
  data  : s.clock.errLogTime.data = s.published.getLast?.map fun p => p.region.start

/-- Two texts in the two slots do not reach each other. -/
theorem apart_of_slots {p q : Publication} {n : Nat} (hp : p.text.length ≤ 83)
    (hq : q.text.length ≤ 83) (hps : p.slot = slotAt n) (hqs : q.slot = slotAt (n + 1)) :
    Apart p.region q.region := by
  have hstart : ∀ r : Publication, r.region = ⟨r.slot.toNat * 20, r.text.length + 1⟩ :=
    fun _ => rfl
  rw [hstart p, hstart q, hps, hqs]
  rcases slotAt_cases n with ⟨h0, h1⟩ | ⟨h0, h1⟩
  · rw [h0, h1]
    refine .inl ?_
    show 0 * 20 + (p.text.length + 1) ≤ 62 * 20
    omega
  · rw [h0, h1]
    refine .inr ?_
    show 0 * 20 + (q.text.length + 1) ≤ 62 * 20
    omega

theorem start_inv : Inv start where
  slot := rfl
  slots := by
    intro i p hp
    cases hp
  sized := by
    intro p hp
    cases hp
  texts := by
    intro i p hp
    cases hp
  data := rfl

theorem step_inv (localtimeR : Int64 → Tm) (s : State) (c : Call) (h : Inv s) :
    Inv (step localtimeR s c) := by
  rcases step_cases localtimeR s c with
    ⟨hps, hslot, hcache, hlog⟩ | ⟨p, hp, hlo, hhi, hps, hslot, hcache, hlog⟩
  · refine ⟨?_, ?_, ?_, ?_, ?_⟩
    · rw [hps, hslot]
      exact h.slot
    · rw [hps]
      exact h.slots
    · rw [hps]
      exact h.sized
    · rw [hps, hcache]
      exact h.texts
    · rw [hps, hlog]
      exact h.data
  · have hpslot : p.slot = slotAt (s.published.length + 1) := by
      rw [hp, h.slot, slotAt_succ]
    refine ⟨?_, ?_, ?_, ?_, ?_⟩
    · rw [hslot, hps, hpslot, List.length_append, List.length_singleton]
    · rw [hps]
      intro i q hq
      rcases Run.getElem?_concat hq with hq | ⟨rfl, rfl⟩
      · exact h.slots i q hq
      · exact hpslot
    · rw [hps]
      intro q hq
      rcases List.mem_append.1 hq with hq | hq
      · exact h.sized q hq
      · rw [List.mem_singleton.1 hq]
        exact ⟨hlo, hhi⟩
    · rw [hps, hcache, List.length_append, List.length_singleton]
      intro i q hq hi
      rcases Run.getElem?_concat hq with hq | ⟨rfl, rfl⟩
      · -- the text before the new one, in the other slot
        have hlt : i < s.published.length := (List.getElem?_eq_some_iff.1 hq).1
        have hlast : s.published.length = i + 1 := by omega
        rw [hlast] at hpslot
        have happart := apart_of_slots (h.sized q (List.mem_of_getElem? hq)).2 hhi
          (h.slots i q hq) hpslot
        rw [Memory.read_write_apart (by simpa [Publication.region] using happart)]
        exact h.texts i q hq (by omega)
      · have hlen : q.region.size = (q.text ++ [NUL]).length := by simp [Publication.region]
        rw [hlen]
        exact Memory.read_write _ _ _
    · rw [hps, hlog, List.getLast?_concat]
      rfl

theorem run_inv (localtimeR : Int64 → Tm) (calls : List Call) :
    Inv (Run.exec (step localtimeR) start calls) := by
  induction calls using List.reverseRecOn with
  | nil => exact start_inv
  | append_singleton calls c ih =>
    rw [Run.exec_concat]
    exact step_inv localtimeR _ c ih

/-! ## Rows -/

section Rows

variable {s : State}

theorem slot_lt (n : Nat) : slotAt n < CACHE_TIME_SLOT := by
  rcases slotAt_cases n with ⟨h, -⟩ | ⟨h, -⟩
  · rw [h]
    decide
  · rw [h]
    decide

theorem Inv.inside (h : Inv s) : ∀ p ∈ s.published, p.slot < CACHE_TIME_SLOT := by
  intro p hp
  obtain ⟨i, hi⟩ := List.getElem?_of_mem hp
  rw [h.slots i p hi]
  exact slot_lt _

theorem Inv.fits_iff (h : Inv s) : Fits s.published ↔ s.published = [] := by
  constructor
  · intro hfits
    refine List.eq_nil_iff_forall_not_mem.2 fun p hp => ?_
    have hend : p.slot.toNat * rowSize + (p.text.length + 1) ≤ p.slot.toNat * rowSize + 20 :=
      (hfits p hp).2
    have hlo := (h.sized p hp).1
    omega
  · intro hnil p hp
    rw [hnil] at hp
    cases hp

theorem Inv.kept_iff (h : Inv s) : Kept s.published ↔ s.published.length ≤ 2 := by
  constructor
  · intro hkept
    by_contra hlt
    -- the third text goes where the first one is
    have h0 := List.getElem?_eq_getElem (l := s.published) (i := 0) (by omega)
    have h2 := List.getElem?_eq_getElem (l := s.published) (i := 2) (by omega)
    have happart := hkept 0 2 _ _ h0 h2 (by decide) (by decide)
    have hslot : (s.published[0]).slot = (s.published[2]).slot := by
      rw [h.slots 0 _ h0, h.slots 2 _ h2]
      rfl
    unfold Apart Region.stop Publication.region at happart
    rw [hslot] at happart
    simp only at happart
    omega
  · intro hle i j p q hp hq hij _
    have hj : j < s.published.length := (List.getElem?_eq_some_iff.1 hq).1
    obtain rfl : j = i + 1 := by omega
    exact apart_of_slots (h.sized p (List.mem_of_getElem? hp)).2
      (h.sized q (List.mem_of_getElem? hq)).2 (h.slots i p hp) (h.slots (i + 1) q hq)

end Rows

/-- In every run from `time_init` on the slots are inside the table and the texts of the last two
updates stand in it, but no text fits its row, and from the third update on texts that are still to
be kept are written over: the rows are used as intended only as long as nothing is published. -/
theorem log_time_rotates_iff (localtimeR : Int64 → Tm) (calls : List Call) :
    let s := Run.exec (step localtimeR) start calls
    (s.clock.errLogTime.data = s.published.getLast?.map fun p => p.region.start) ∧
      (∀ p ∈ s.published, p.slot < CACHE_TIME_SLOT) ∧
      (∀ i p, s.published[i]? = some p → s.published.length ≤ i + 2 →
        Memory.read s.clock.cache p.region.start p.region.size = p.text ++ [NUL]) ∧
      (Fits s.published ↔ s.published = []) ∧ (Kept s.published ↔ s.published.length ≤ 2) ∧
      (Rotates s.published ↔ s.published = []) := by
  have h := run_inv localtimeR calls
  refine ⟨h.data, h.inside, h.texts, h.fits_iff, h.kept_iff, fun hr => h.fits_iff.1 hr.fits, fun hnil => ?_⟩
  refine ⟨h.inside, h.fits_iff.2 hnil, h.kept_iff.2 ?_⟩
  rw [hnil]
  exact Nat.zero_le 2

/-- 12:00:00 on 28 September 1970. -/
def noon : Tm := ⟨0, 0, 12, 28, 8, 70⟩

/-- Three updates, 10 ms after each other: the texts of 24 bytes leave their rows, and the third
one stands on the first one. -/
theorem log_time_overwritten :
    let s := Run.exec (step fun _ => noon) start
      [⟨false, 23371200, 0⟩, ⟨false, 23371200, 10000⟩, ⟨false, 23371200, 20000⟩]
    ¬ Fits s.published ∧ ¬ Kept s.published ∧ ¬ Rotates s.published := by
  intro s
  have h : Inv s := run_inv _ _
  have hlength : s.published.length = 3 := rfl
  have hfits : ¬ Fits s.published := by
    intro hfits
    rw [h.fits_iff.1 hfits] at hlength
    cases hlength
  have hkept : ¬ Kept s.published := by
    rw [h.kept_iff, hlength]
    exact Nat.not_le.2 (Nat.lt_succ_self 2)
  exact ⟨hfits, hkept, fun hrotates => hfits hrotates.fits⟩

end LogTime
end Shs
