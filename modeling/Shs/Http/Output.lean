import Shs.Lib.Run
import Shs.Http.Handlers

/-!
# Http.Output

The life of one message in `req->out`: `http_write_buffer` sends what it can, and write events
take it up again until the message is through or the connection fails. `Writer` is what this part
of the program sees of the connection, with the bytes that `send` has taken and the calls of
`conn_cb` noted.

`conn_send` returns the number of bytes through an `int`, and `buffer_shrink` keeps the number of
unread bytes in one. Both are modelled as they are, so messages may have any length here.
-/

namespace Shs
namespace Http

/-- `buffer_shrink` for any number of unread bytes. It is `none` where `memmove` is given a
negative number. -/
def bufferShrinkInt (b : Buffer) : Option Buffer :=
  if b.pos = 0 then some b
  else
    let blen := toInt32 b.data.length
    if blen = 0 then some (bufferReset b)
    else if blen < 0 then none
    else some { b with pos := 0, data := b.data.take blen.toNat }

/-- The bytes that `send` takes in the loop of `conn_send`, in the order of the calls. -/
def taken : List SendResult → Bytes → Bytes
  | _, [] => []
  | [], bs => bs
  | .again :: _, _ => []
  | .error :: _, _ => []
  | .sent k :: rs, bs =>
    if k = 0 then []
    else
      let n := min (min k bs.length) MAX_RW_COUNT
      bs.take n ++ taken rs (bs.drop n)

theorem taken_nil (rs : List SendResult) : taken rs [] = [] := by
  cases rs <;> rfl

/-- What is taken and what is left are the bytes of the buffer. -/
theorem taken_unsent (rs : List SendResult) (bs : Bytes) (done : Nat) :
    taken rs bs ++ (sendLoop rs bs done).unsent = bs := by
  induction rs generalizing bs done with
  | nil =>
    cases bs with
    | nil => simp only [sendLoop_nil, taken_nil, List.append_nil]
    | cons b bs => simp only [sendLoop_all, List.append_nil]; rfl
  | cons r rs ih =>
    cases bs with
    | nil => simp only [sendLoop_nil, taken_nil, List.append_nil]
    | cons b bs =>
      cases r with
      | again => rfl
      | error => rfl
      | sent k =>
        rw [sendLoop_sent]
        unfold taken
        split
        · rfl
        · rw [List.append_assoc, ih, List.take_append_drop]

/-- The return value says that all bytes are through, up to what an `int` can say, or why not. -/
theorem sendLoop_ret (rs : List SendResult) (bs : Bytes) (done : Nat) :
    ((sendLoop rs bs done).unsent = [] ∧
        (sendLoop rs bs done).ret = toInt32 (done + bs.length : Nat)) ∨
      ((sendLoop rs bs done).unsent ≠ [] ∧
        ((sendLoop rs bs done).ret = SHS_AGAIN ∨ (sendLoop rs bs done).ret = SHS_ERROR ∨
          (sendLoop rs bs done).ret = 0)) := by
  induction rs generalizing bs done with
  | nil =>
    cases bs with
    | nil => exact .inl (by simp only [sendLoop_nil, List.length_nil, Nat.add_zero, and_self])
    | cons b bs => exact .inl (by simp only [sendLoop_all, and_self])
  | cons r rs ih =>
    cases bs with
    | nil => exact .inl (by simp only [sendLoop_nil, List.length_nil, Nat.add_zero, and_self])
    | cons b bs =>
      cases r with
      | again => exact .inr ⟨by simp [sendLoop_again], .inl rfl⟩
      | error => exact .inr ⟨by simp [sendLoop_error], .inr (.inl rfl)⟩
      | sent k =>
        rw [sendLoop_sent]
        split
        · exact .inr ⟨by simp, .inr (.inr rfl)⟩
        · have hn : ∀ n, n = min (min k (b :: bs).length) MAX_RW_COUNT →
              done + n + ((b :: bs).drop n).length = done + (b :: bs).length := by
            intro n hn
            rw [List.length_drop]
            omega
          rcases ih ((b :: bs).drop (min (min k (b :: bs).length) MAX_RW_COUNT))
            (done + min (min k (b :: bs).length) MAX_RW_COUNT) with ⟨hu, hr⟩ | h
          · refine .inl ⟨hu, hr.trans ?_⟩
            rw [hn _ rfl]
          · exact .inr h

/-! ## The writer -/

/-- A connection that has a message to send, as the writing side sees it. -/
structure Writer where
  connCb : ConnCb
  /-- whether `http_send_done` gives the connection up -/
  close : Bool
  /-- `hc->req->out` -/
  out : Buffer
  /-- `hc->write_event_handler` is `conn_write_handler` -/
  armed : Bool := false
  /-- the connection has not failed and has not been freed -/
  live : Bool := true
  /-- all bytes of the message that `send` has taken -/
  accepted : Bytes := []
  /-- how often `conn_cb` has been called -/
  called : Nat := 0
  /-- `memmove` was given a negative number -/
  undefined : Bool := false
  deriving DecidableEq, Repr

namespace Writer

/-- `hc->conn_cb(hc, req)`. `http_send_done` leaves the handler of the write event armed, and the
request that comes next has an empty `out`. -/
def callConnCb (s : Writer) : Writer :=
  match s.connCb with
  | .httpSendDone =>
    if s.close then { s with called := s.called + 1, live := false }
    else { s with called := s.called + 1, out := bufferCreate HEADER_SZ }
  | .httpSendRequestDone => { s with called := s.called + 1, armed := false }

/-- `http_write_buffer` behind `conn_send`, which has returned `n`. -/
def sendReturned (n : Int) (s : Writer) : Writer :=
  if n = 0 ∨ n = SHS_ERROR then { s with live := false }
  else if n > 0 then callConnCb s
  else { s with armed := true }

/-- `http_write_buffer`, with the results of its calls of `send`. -/
def writeBuffer (rs : List SendResult) (s : Writer) : Writer :=
  match bufferShrinkInt s.out with
  | none => { s with live := false, undefined := true }
  | some out =>
    let t := sendLoop rs out.data 0
    sendReturned t.ret
      { s with out := sentOut out t.unsent, accepted := s.accepted ++ taken rs out.data }

inductive Event where
  | writable (rs : List SendResult)
  | timeout
  deriving DecidableEq, Repr

/-- `conn_write_handler`, if it is armed. -/
def step (s : Writer) : Event → Writer
  | .writable rs => if s.live && s.armed then writeBuffer rs s else s
  | .timeout => if s.live && s.armed then { s with live := false } else s

def start (cb : ConnCb) (close : Bool) (message : Bytes) : Writer :=
  { connCb := cb, close := close, out := ⟨message.length, 0, message⟩ }

/-- The first call of `http_write_buffer`, and the write events that follow it. -/
def run (cb : ConnCb) (close : Bool) (message : Bytes) (rs : List SendResult)
    (evs : List Event) : Writer :=
  Run.exec step (writeBuffer rs (start cb close message)) evs

/-- The bytes taken are the message from its start on, and `conn_cb` has been called once if and
only if they are the whole of it. -/
structure Exact (message : Bytes) (s : Writer) : Prop where
  order : s.accepted <+: message
  once : s.called ≤ 1
  whole : 0 < s.called ↔ s.accepted = message
  defined : s.undefined = false

/-! ## Messages that an `int` can count -/

/-- Where a writer is with a message of fewer than 2 GiB. -/
inductive Sends (message : Bytes) (s : Writer) : Prop
  /-- under way -/
  | underway (h : s.accepted ++ s.out.data = message) (hne : s.out.data ≠ []) (hc : s.called = 0)
      (hu : s.undefined = false)
  /-- through; nothing is left to send -/
  | sent (h : s.accepted = message) (hc : s.called = 1) (hu : s.undefined = false)
      (hout : s.live = true → s.armed = true → s.out = bufferCreate HEADER_SZ)
  /-- given up -/
  | lost (h : s.accepted <+: message) (hne : s.accepted ≠ message) (hc : s.called = 0)
      (hu : s.undefined = false) (hl : s.live = false)

theorem bufferShrinkInt_small {b : Buffer} (h : b.data.length < 2 ^ 31) :
    bufferShrinkInt b = some (bufferShrink b) := by
  obtain ⟨size, pos, data⟩ := b
  simp only [bufferShrinkInt, bufferShrink, bufferReset] at h ⊢
  rw [toInt32_small h]
  by_cases hpos : pos = 0
  · simp only [hpos, if_true]
  · rw [if_neg hpos]
    by_cases hzero : data = []
    · simp [hzero]
    · have hlen := List.length_pos_of_ne_nil hzero
      rw [if_neg (by omega), if_neg (by omega)]
      simp

/-- What one call of `http_write_buffer` does to a message under way. -/
theorem writeBuffer_sends {message : Bytes} (hlen : message.length < 2 ^ 31) {s : Writer}
    (h : s.accepted ++ s.out.data = message) (hne : s.out.data ≠ []) (hc : s.called = 0)
    (hu : s.undefined = false) (rs : List SendResult) : Sends message (writeBuffer rs s) := by
  have hout : s.out.data.length ≤ message.length := by
    rw [← h, List.length_append]
    omega
  have hpos := List.length_pos_of_ne_nil hne
  have hshrink := bufferShrinkInt_small (b := s.out) (by omega)
  have hall := taken_unsent rs s.out.data 0
  have hdata : (sentOut (bufferShrink s.out) _).data = _ :=
    sentOut_data (sendLoop_suffix rs s.out.data 0)
  unfold writeBuffer
  simp only [hshrink, bufferShrink_data]
  rcases sendLoop_ret rs s.out.data 0 with ⟨hnone, hret⟩ | ⟨hsome, hret⟩
  · -- the whole rest went out, and the `int` says so
    rw [Nat.zero_add, toInt32_small (by omega)] at hret
    rw [hnone, List.append_nil] at hall
    rw [hret, hall, sendReturned, if_neg (by simp only [SHS_ERROR]; omega), if_pos (by omega)]
    simp only [callConnCb]
    split
    · split
      · exact .sent h (by simp [hc]) hu (fun hl => by cases hl)
      · exact .sent h (by simp [hc]) hu (fun _ _ => rfl)
    · exact .sent h (by simp [hc]) hu (fun _ ha => by cases ha)
  · have hrest : (s.accepted ++ taken rs s.out.data) ++
        (sendLoop rs s.out.data 0).unsent = message := by
      rw [List.append_assoc, hall, h]
    have hpart : s.accepted ++ taken rs s.out.data ≠ message := by
      intro heq
      rw [heq] at hrest
      exact hsome (List.append_right_eq_self.mp hrest)
    unfold sendReturned
    split
    · exact .lost ⟨_, hrest⟩ hpart hc hu rfl
    · rename_i hnot
      have hagain : (sendLoop rs s.out.data 0).ret = SHS_AGAIN := by
        rcases hret with h₁ | h₁ | h₁
        · exact h₁
        · exact absurd (.inr h₁) hnot
        · exact absurd (.inl h₁) hnot
      rw [if_neg (by rw [hagain]; decide)]
      refine .underway ?_ ?_ hc hu
      · rw [hdata]
        exact hrest
      · rw [hdata]
        exact hsome

theorem Sends.step {message : Bytes} (hlen : message.length < 2 ^ 31) {s : Writer}
    (h : Sends message s) (ev : Event) : Sends message (step s ev) := by
  cases ev with
  | writable rs =>
    simp only [Writer.step]
    split
    · rename_i hl
      simp only [Bool.and_eq_true] at hl
      cases h with
      | underway h hne hc hu => exact writeBuffer_sends hlen h hne hc hu rs
      | sent h hc hu hout =>
        -- an event too many: nothing is sent, and the connection fails
        have hempty := hout hl.1 hl.2
        have hw : writeBuffer rs s = { s with live := false } := by
          simp [writeBuffer, hempty, bufferShrinkInt, bufferCreate, sendLoop_nil, taken_nil,
            sentOut, bufferReset, toInt32, sendReturned]
        rw [hw]
        exact .sent h hc hu (fun hl => by cases hl)
      | lost h hne hc hu hdead => simp [hdead] at hl
    · exact h
  | timeout =>
    simp only [Writer.step]
    split
    · cases h with
      | underway h hne hc hu =>
        refine .lost ⟨_, h⟩ (fun heq => ?_) hc hu rfl
        simp only at heq
        rw [heq] at h
        exact hne (List.append_right_eq_self.mp h)
      | sent h hc hu hout => exact .sent h hc hu (fun hl => by cases hl)
      | lost h hne hc hu hdead => exact .lost h hne hc hu rfl
    · exact h

theorem sends_run {message : Bytes} (hpos : 0 < message.length) (hlen : message.length < 2 ^ 31)
    (cb : ConnCb) (close : Bool) (rs : List SendResult) (evs : List Event) :
    Sends message (run cb close message rs evs) := by
  unfold run
  induction evs using List.reverseRecOn with
  | nil =>
    have hne : (start cb close message).out.data ≠ [] := List.ne_nil_of_length_pos hpos
    exact writeBuffer_sends hlen rfl hne rfl rfl rs
  | append_singleton evs ev ih =>
    rw [Run.exec_concat]
    exact ih.step hlen ev

theorem Sends.exact {message : Bytes} {s : Writer} (h : Sends message s) : Exact message s := by
  cases h with
  | underway h hne hc hu =>
    refine ⟨⟨_, h⟩, by omega, ⟨fun hpos => by omega, fun heq => ?_⟩, hu⟩
    rw [heq] at h
    exact absurd (List.append_right_eq_self.mp h) hne
  | sent h hc hu _ => exact ⟨h ▸ List.prefix_rfl, by omega, ⟨fun _ => h, fun _ => by omega⟩, hu⟩
  | lost h hne hc hu _ => exact ⟨h, by omega, ⟨fun hpos => by omega, fun heq => absurd heq hne⟩, hu⟩

/-! ## Longer messages -/

theorem exact_of_run {cb : ConnCb} {close : Bool} {message : Bytes}
    (h : ∀ rs evs, Exact message (run cb close message rs evs)) (rs : List SendResult) :
    Exact message (writeBuffer rs (start cb close message)) := h rs []

/-- Everything goes out in one call, and the `int` does not say so. -/
theorem not_exact_at_once (cb : ConnCb) (close : Bool) {message : Bytes}
    (hret : toInt32 message.length ≤ 0) :
    ¬ Exact message (writeBuffer [] (start cb close message)) := by
  intro h
  have hs : (sendLoop [] message 0).ret = toInt32 message.length ∧ taken [] message = message := by
    cases message with
    | nil => exact ⟨rfl, rfl⟩
    | cons b bs =>
      rw [sendLoop_all]
      exact ⟨by rw [Nat.zero_add], rfl⟩
  have hw : (writeBuffer [] (start cb close message)).called = 0 ∧
      (writeBuffer [] (start cb close message)).accepted = message := by
    simp only [writeBuffer, start, bufferShrinkInt, if_true, hs, List.nil_append, sendReturned]
    split
    · exact ⟨rfl, rfl⟩
    · rw [if_neg (by omega)]
      exact ⟨rfl, rfl⟩
  have hpos := h.whole.mpr hw.2
  omega

/-- A writer that has sent the first `k` bytes and waits. -/
def halfSent (cb : ConnCb) (close : Bool) (message : Bytes) (k : Nat) : Writer :=
  { connCb := cb, close := close, out := ⟨message.length, k, message.drop k⟩, armed := true,
    accepted := message.take k }

/-- `k` bytes go out, and the socket is full. -/
theorem writeBuffer_again {cb : ConnCb} {close : Bool} {message : Bytes} {k : Nat} (hk : 0 < k)
    (hlen : k < message.length) (hmax : k ≤ MAX_RW_COUNT) :
    writeBuffer [.sent k, .again] (start cb close message) = halfSent cb close message k := by
  obtain ⟨b, bs, rfl⟩ := List.exists_cons_of_length_pos (Nat.lt_trans hk hlen)
  obtain ⟨c, cs, hdrop⟩ := List.exists_cons_of_length_pos (l := (b :: bs).drop k)
    (by rw [List.length_drop]; omega)
  have hmin : min (min k (b :: bs).length) MAX_RW_COUNT = k := by omega
  have hloop : sendLoop [.sent k, .again] (b :: bs) 0 = ⟨SHS_AGAIN, c :: cs, true, []⟩ := by
    rw [sendLoop_sent, if_neg (by omega)]
    simp only [hmin, hdrop, sendLoop_again, Bool.true_or]
  have htaken : taken [.sent k, .again] (b :: bs) = (b :: bs).take k := by
    unfold taken
    rw [if_neg (by omega)]
    simp only [hmin, hdrop, taken, List.append_nil]
  have hcut : (b :: bs).length - (c :: cs).length = k := by
    rw [← hdrop, List.length_drop]
    omega
  simp only [writeBuffer, start, bufferShrinkInt, if_true, hloop, htaken, List.nil_append,
    sentOut, reduceCtorEq, if_false, bufferShrink, bufferPull, hcut, Nat.zero_add, sendReturned]
  rw [hdrop, if_neg (by decide), if_neg (by decide)]
  simp only [halfSent, hdrop]

theorem run_again {cb : ConnCb} {close : Bool} {message : Bytes} {k : Nat} (hk : 0 < k)
    (hlen : k < message.length) (hmax : k ≤ MAX_RW_COUNT) (rs : List SendResult) :
    run cb close message [.sent k, .again] [.writable rs] =
      writeBuffer rs (halfSent cb close message k) := by
  unfold run
  rw [writeBuffer_again hk hlen hmax]
  rfl

theorem toInt32_cases (n : Nat) :
    (n % 2 ^ 32 < 2 ^ 31 ∧ toInt32 n = (n % 2 ^ 32 : Nat)) ∨
      (2 ^ 31 ≤ n % 2 ^ 32 ∧ toInt32 n = (n % 2 ^ 32 : Nat) - 2 ^ 32) := by
  unfold toInt32 Int.bmod
  by_cases h : n % 2 ^ 32 < 2 ^ 31
  · refine .inl ⟨h, ?_⟩
    rw [if_pos (by omega)]
    omega
  · refine .inr ⟨by omega, ?_⟩
    rw [if_neg (by omega)]
    omega

/-- The rest of a message is taken up again, and `buffer_shrink` cuts it. -/
theorem writeBuffer_cut {s : Writer} {n : Nat} (hpos : s.out.pos ≠ 0)
    (hblen : toInt32 s.out.data.length = n) (hn : 0 < n) (hsmall : n < 2 ^ 31)
    (hle : n ≤ s.out.data.length) :
    (writeBuffer [] s).called = s.called + 1 ∧
      (writeBuffer [] s).accepted = s.accepted ++ s.out.data.take n := by
  obtain ⟨b, bs, hcons⟩ := List.exists_cons_of_length_pos (l := s.out.data.take n)
    (by rw [List.length_take]; omega)
  have hlen : (b :: bs).length = n := by
    rw [← hcons, List.length_take]
    omega
  obtain ⟨ret, hret, hloop⟩ : ∃ ret : Int, 0 < ret ∧
      sendLoop [] (b :: bs) 0 = ⟨ret, [], false, []⟩ := by
    refine ⟨_, ?_, sendLoop_all b bs 0⟩
    rw [hlen, Nat.zero_add, toInt32_small hsmall]
    omega
  have hshrink : bufferShrinkInt s.out = some { s.out with pos := 0, data := b :: bs } := by
    unfold bufferShrinkInt
    rw [if_neg hpos]
    simp only [hblen]
    rw [if_neg (by omega), if_neg (by omega), Int.toNat_natCast, hcons]
  simp only [writeBuffer, hshrink, hloop, taken, hcons, sendReturned]
  rw [if_neg (by simp only [SHS_ERROR]; omega), if_pos hret]
  unfold callConnCb
  split
  · split <;> exact ⟨rfl, rfl⟩
  · exact ⟨rfl, rfl⟩

theorem writeBuffer_undefined {s : Writer} (h : bufferShrinkInt s.out = none)
    (rs : List SendResult) : writeBuffer rs s = { s with live := false, undefined := true } := by
  unfold writeBuffer
  rw [h]

/-- Two bytes go out, and the rest of the message counts as -1. -/
theorem not_exact_negative (cb : ConnCb) (close : Bool) {message : Bytes}
    (hlen : 2 < message.length) (hone : message.length % 2 ^ 32 = 1) :
    ¬ Exact message (run cb close message [.sent 2, .again] [.writable []]) := by
  have hblen : toInt32 (message.drop 2).length = -1 := by
    rw [List.length_drop]
    rcases toInt32_cases (message.length - 2) with ⟨hlt, heq⟩ | ⟨hge, heq⟩ <;> omega
  have hnone : bufferShrinkInt (halfSent cb close message 2).out = none := by
    simp only [bufferShrinkInt, halfSent, hblen]
    rw [if_neg (by omega), if_neg (by omega), if_pos (by omega)]
  intro h
  rw [run_again (by omega) hlen (by unfold MAX_RW_COUNT; omega)] at h
  have hundef := h.defined
  rw [writeBuffer_undefined hnone] at hundef
  cases hundef

/-- One byte goes out, and the rest of the message is cut to what the `int` says. -/
theorem not_exact_cut (cb : ConnCb) (close : Bool) {message : Bytes}
    (hlen : 2 ^ 31 ≤ message.length) (hlow : message.length % 2 ^ 32 < 2 ^ 31)
    (htwo : 1 < message.length % 2 ^ 32) :
    ¬ Exact message (run cb close message [.sent 1, .again] [.writable []]) := by
  obtain ⟨n, hn⟩ : ∃ n, n = message.length % 2 ^ 32 - 1 := ⟨_, rfl⟩
  have hblen : toInt32 (message.drop 1).length = n := by
    rw [List.length_drop]
    rcases toInt32_cases (message.length - 1) with ⟨hlt, heq⟩ | ⟨hge, heq⟩ <;> omega
  have hle : n < (message.drop 1).length := by
    rw [List.length_drop]
    omega
  obtain ⟨hcalled, hacc⟩ := writeBuffer_cut (s := halfSent cb close message 1)
    Nat.one_ne_zero hblen (by omega) (by omega) (Nat.le_of_lt hle)
  intro h
  rw [run_again (by omega) (by omega) (by unfold MAX_RW_COUNT; omega)] at h
  have hwhole := h.whole.mp (by rw [hcalled]; exact Nat.succ_pos _)
  rw [hacc] at hwhole
  have hl := congrArg List.length hwhole
  simp only [halfSent, List.length_append, List.length_take, List.length_drop] at hl hle
  omega

/-- For every message of 2 GiB and more there are results of `send` that show the `int`s. -/
theorem not_exact_long {cb : ConnCb} {close : Bool} {message : Bytes}
    (hlen : 2 ^ 31 ≤ message.length) :
    ¬ ∀ rs evs, Exact message (run cb close message rs evs) := by
  intro h
  rcases toInt32_cases message.length with ⟨hlow, hret⟩ | ⟨hhigh, hret⟩
  · -- more than 4 GiB where the `int` is positive
    rcases Nat.lt_trichotomy (message.length % 2 ^ 32) 1 with hzero | hone | htwo
    · exact not_exact_at_once cb close (by omega) (exact_of_run h [])
    · exact not_exact_negative cb close (by omega) hone (h _ _)
    · exact not_exact_cut cb close hlen hlow htwo (h _ _)
  · exact not_exact_at_once cb close (by omega) (exact_of_run h [])

/-- Exactly the messages that an `int` can count go out exactly, whatever `send` does. -/
theorem output_exact (cb : ConnCb) (close : Bool) (message : Bytes) :
    (∀ rs evs, Exact message (run cb close message rs evs)) ↔
      0 < message.length ∧ message.length < 2 ^ 31 := by
  constructor
  · intro h
    constructor
    · by_contra hzero
      have hlen : message.length = 0 := by omega
      refine not_exact_at_once cb close ?_ (exact_of_run h [])
      rw [hlen]
      decide
    · by_contra hlong
      exact not_exact_long (by omega) h
  · rintro ⟨hpos, hlen⟩ rs evs
    exact (sends_run hpos hlen cb close rs evs).exact

/-- With 2 GiB in one call, the whole message is taken and `conn_cb` is not called. -/
theorem output_not_exact :
    ¬ ∀ (cb : ConnCb) (close : Bool) (message : Bytes) (rs : List SendResult) (evs : List Event),
      0 < message.length → Exact message (run cb close message rs evs) := by
  intro h
  obtain ⟨message, hlen⟩ : ∃ message : Bytes, message.length = 2 ^ 31 :=
    ⟨List.replicate (2 ^ 31) 0, List.length_replicate⟩
  have hret : toInt32 message.length ≤ 0 := by
    rw [hlen]
    decide
  exact not_exact_at_once .httpSendDone false hret
    (h .httpSendDone false message [] [] (by omega))

/-! ## The connection behind the writer -/

theorem noteSent_connCb (h r : Nat) (t : Sending) (w : World) :
    ((noteSent h r t w).conns h).connCb = (w.conns h).connCb ∧
      ((noteSent h r t w).reqs r).outBuf = sentOut (w.reqs r).outBuf t.unsent := by
  unfold noteSent
  split <;> simp [World.modReq, World.setReq, World.modC, World.modConn, World.setConn, World.emit]

/-- `http_write_buffer` on the heap branches as the writer does, with the same bytes left in
`req->out`. -/
theorem httpWriteBuffer_writer (cb : Callbacks) {h r : Nat} {w : World} {s : Writer}
    (hl : (w.conns h).live = true) (hq : (w.reqs r).live = true)
    (hr : (w.conns h).req = some r) (hh : (w.reqs r).hc = some h)
    (hcb : (w.conns h).connCb = some s.connCb) (hout : (w.reqs r).outBuf = s.out)
    (hlen : s.out.data.length < 2 ^ 31) :
    let t := sendLoop w.env.sends s.out.data 0
    let w' := noteSent h r t w
    let s' := { s with out := sentOut s.out t.unsent
                       accepted := s.accepted ++ taken w.env.sends s.out.data }
    (w'.reqs r).outBuf = s'.out ∧ writeBuffer w.env.sends s = sendReturned t.ret s' ∧
      httpWriteBuffer cb h w =
        if t.ret = 0 ∨ t.ret = SHS_ERROR then httpConnFail cb h .writeEof w'
        else if t.ret > 0 then
          match s.connCb with
          | .httpSendDone => httpSendDone h r w'
          | .httpSendRequestDone => httpSendRequestDone h r w'
        else
          w'.modConn h fun hc =>
            { hc with
              writeEventHandler := some .connWriteHandler
              c := { hc.c with write := eventTimerAdd (eventAdd w'.env.add hc.c.write) } } := by
  intro t w' s'
  have htouch : w.touchConn h = w := if_pos hl
  have htouch' : w.touchReq r = w := if_pos hq
  obtain ⟨hcb', hout'⟩ := noteSent_connCb h r t w
  refine ⟨by rw [hout', hout], ?_, ?_⟩
  · unfold writeBuffer
    rw [bufferShrinkInt_small hlen]
    rfl
  · have hsend : connSend r w = (t.ret, w') := by
      unfold connSend
      simp only [htouch', hh, hout]
      rfl
    have hcb'' : (w'.conns h).connCb = some s.connCb := hcb'.trans hcb
    unfold httpWriteBuffer
    simp only [htouch, hr, hsend, hcb'']
    cases s.connCb <;> rfl

end Writer

end Http
end Shs
