import Shs.Http.Verdict

/-!
# Http.Complete

When a message has been received whole, and when the reading functions take it for whole.
`complete` looks at the received bytes alone: a first line, an empty line behind it, and as many
bytes as the Content-Length asks for. `Progress` is what is known of the received bytes while a
message is read, and `judged_connRead` shows that a message that is handed on is complete unless
one of three things happens in a call of `conn_recv`: the two bytes of a line end are separated
(`splitsLineEnd`), a header line begins with NUL (`nulLine`), or the peer closes (`closesEarly`).
-/

namespace Shs
namespace Http

open LineStream

/-- The lines of a message up to the empty one behind the first line. -/
def outlineAct (seen : Bool) (line : Bytes) : Bool ⊕ Unit :=
  if seen && line.isEmpty then .inr () else .inl true

def outline (d : Bytes) : Out UInt8 Bool Unit := feed isEol outlineAct false d

/-- What stands behind the head of the message that begins `d`. -/
def behindHead (d : Bytes) : Option Bytes :=
  match outline d with
  | .more _ _ => none
  | .stop _ rest => some rest

/-- `http_get_body` asks for a body. -/
def needsBody (kind : Kind) (q : HttpReq) : Bool :=
  match kind with
  | .request => q.type == .post
  | .response => !bodyless q.responseCode

/-- The head of the message has been received, and all of the body it needs. -/
def complete (kind : Kind) (q : HttpReq) : Bool :=
  match behindHead q.rx with
  | none => false
  | some rest =>
    !needsBody kind q ||
      match httpGetBodyLength q with
      | none => false
      | some n => n ≤ rest.length

theorem behindHead_more {d rest : Bytes} (h : behindHead d = some rest) (t : Bytes) :
    ∃ rest', behindHead (d ++ t) = some rest' ∧ rest.length ≤ rest'.length := by
  unfold behindHead outline at h
  split at h
  · cases h
  · rename_i u r hs
    cases h
    obtain ⟨r', hr', hlen⟩ := feed_stop_more isEol outlineAct hs t
    refine ⟨r', ?_, hlen⟩
    unfold behindHead outline
    rw [hr']

theorem complete_of_body {kind : Kind} {q : HttpReq} {rest : Bytes} {n : Nat}
    (hr : behindHead q.rx = some rest) (hn : httpGetBodyLength q = some n)
    (hle : n ≤ rest.length) : complete kind q = true := by
  simp [complete, hr, hn, hle]

theorem complete_of_bodyless {kind : Kind} {q : HttpReq} {rest : Bytes}
    (hr : behindHead q.rx = some rest) (hb : needsBody kind q = false) :
    complete kind q = true := by
  simp [complete, hr, hb]

/-- More bytes, and another input buffer, leave a message complete. -/
theorem complete_more {kind : Kind} {q q' : HttpReq} (h : complete kind q = true)
    (htype : q'.type = q.type) (hcode : kind = .response → q'.responseCode = q.responseCode)
    (hh : q'.inputHeaders = q.inputHeaders) {t : Bytes} (hrx : q'.rx = q.rx ++ t) :
    complete kind q' = true := by
  have hneed : needsBody kind q' = needsBody kind q := by
    cases kind with
    | request => simp only [needsBody, htype]
    | response => simp only [needsBody, hcode rfl]
  have hlen : httpGetBodyLength q' = httpGetBodyLength q := by
    simp only [httpGetBodyLength, hh]
  unfold complete at h
  split at h
  · cases h
  · rename_i rest hr
    obtain ⟨rest', hr', hle⟩ := behindHead_more hr t
    rw [← hrx] at hr'
    cases hb : needsBody kind q with
    | false => exact complete_of_bodyless hr' (hneed.trans hb)
    | true =>
      rw [hb] at h
      simp only [Bool.not_true, Bool.false_or] at h
      split at h
      · cases h
      · rename_i n hn
        exact complete_of_body hr' (hlen.trans hn) (Nat.le_trans (of_decide_eq_true h) hle)

/-! ## The three conditions -/

/-- A header line that begins with NUL, which `http_parse_headers` takes for the empty line. -/
def nulAct (seen : Bool) (line : Bytes) : Bool ⊕ Bool :=
  if seen && line.isEmpty then .inr false
  else if seen && line.head? == some NUL then .inr true
  else .inl true

def nulHeader (seen : Bool) (d : Bytes) : Bool :=
  match feed isEol nulAct seen d with
  | .stop b _ => b
  | .more _ _ => false

/-- The first line has been read. -/
def ConnStatus.seen (st : ConnStatus) : Bool := st != .readingFirstline

def ConnStatus.inHead (st : ConnStatus) : Bool :=
  st == .readingFirstline || st == .readingHeaders

/-- The cut between `a` and `b` separates the two bytes of a line end. -/
def badCut (a b : Bytes) : Bool :=
  match openEnd isEol a, b.head? with
  | some x, some y => mates isEol x y
  | _, _ => false

theorem cutOk_of_badCut {a b : Bytes} (h : badCut a b = false) : CutOk isEol a b := by
  intro x y hx hy
  simpa only [badCut, hx, hy] using h

/-- `conn_recv` stores the second byte of a line end of the head behind the first one, which was
taken for the whole line end. -/
def splitsLineEnd (s : Reader) : Bool :=
  s.req.readDone == 0 &&
    badCut s.req.rx ((connRecv s.req s.rcvq).2.1.rx.drop s.req.rx.length)

def nulLine (s : Reader) : Bool :=
  s.status.inHead && nulHeader s.status.seen (connRecv s.req s.rcvq).2.1.inBuf.data

/-- The end of the stream is taken for the end of the message. A request whose first line is
missing has no uri, so it goes nowhere. -/
def closesEarly (s : Reader) : Bool :=
  (connRecv s.req s.rcvq).1 == 0 && (connRecv s.req s.rcvq).2.1.inBuf.data.isEmpty &&
    (s.status.seen || s.req.kind == .response)

def roundOk (s : Reader) : Bool := !splitsLineEnd s && !nulLine s && !closesEarly s

/-- What the reader is before each call of `conn_recv` of a read event. -/
def rounds (armed : Bool) : Nat → Reader → List Reader
  | 0, _ => []
  | n + 1, s =>
    let (ret, q, rcvq) := connRecv s.req s.rcvq
    let s' := { s with req := q, rcvq := rcvq }
    if ret = SHS_AGAIN ∧ bufferSize q.inBuf = 0 ∨ ret = SHS_ERROR ∨
        ret = 0 ∧ bufferSize q.inBuf = 0 then [s]
    else
      match recvDone s' with
      | (s', .readOn) => if armed then s :: rounds armed n s' else [s]
      | _ => [s]

/-- A read event in which nothing is taken for the end of a message that is none. -/
def soundRead (armed : Bool) (s : Reader) : Bool :=
  (rounds armed ((rcvqData s.rcvq).length + 2) s).all roundOk

/-! ## The head machine and the outline -/

theorem cstr_nil {line : Bytes} (h : cstr line = []) : line = [] ∨ line.head? = some NUL := by
  cases line with
  | nil => exact .inl rfl
  | cons b bs =>
    right
    by_contra hb
    have hb : b ≠ NUL := fun h => hb (by rw [h]; rfl)
    simp [cstr, hb] at h

theorem parseHeaderLine_done {q : HttpReq} {line : Bytes} (h : parseHeaderLine q line = .done) :
    line = [] := by
  unfold parseHeaderLine at h
  split at h
  · rfl
  · repeat' split at h
    all_goals cases h

theorem parseHeaderLine_go {q q' : HttpReq} {line : Bytes} (h : parseHeaderLine q line = .go q') :
    line ≠ [] := by
  rintro rfl
  cases h

theorem nulHeader_stop {seen : Bool} {d l r : Bytes} (hl : takeLine isEol d = some (l, r))
    (hs : seen = true) (hn : l.head? = some NUL) : nulHeader seen d = true := by
  have hne : l.isEmpty = false := by
    cases l with
    | nil => cases hn
    | cons => rfl
  have ha : nulAct seen l = .inr true := by simp [nulAct, hs, hne, hn]
  simp only [nulHeader, feed_stop isEol nulAct hl ha]

theorem nulHeader_next {seen : Bool} {d l r : Bytes} (hl : takeLine isEol d = some (l, r))
    (hs : seen = true → l ≠ [] ∧ l.head? ≠ some NUL) : nulHeader seen d = nulHeader true r := by
  have ha : nulAct seen l = .inl true := by
    cases seen with
    | false => rfl
    | true => simp [nulAct, (hs rfl).1, (hs rfl).2]
  simp only [nulHeader, feed_next isEol nulAct hl ha]

/-- What the head machine and the outline of the same bytes have in common. -/
def Outlines (seen : Bool) (d : Bytes) : HeadOut → Prop
  | .more s' r => feed isEol outlineAct seen d = .more s'.status.seen r
  | .stop (.accepted _) r => feed isEol outlineAct seen d = .stop () r
  | .stop (.rejected _ _) _ => True

/-- **The head machine stops at the empty line**, unless a header line begins with NUL. -/
theorem feedHead_outlines (st : ConnStatus) (q : HttpReq) (d : Bytes) (hs : st.inHead = true)
    (hnul : nulHeader st.seen d = false) : Outlines st.seen d (feedHead st q d) := by
  revert hs hnul
  refine feed_induction isEol headAct (P := fun s d => s.status.inHead = true →
    nulHeader s.status.seen d = false →
      Outlines s.status.seen d (feed isEol headAct s d)) ?_ ?_ ?_ ⟨st, q⟩ d
  · intro s d hl _ _
    rw [feed_none isEol headAct hl]
    exact feed_none isEol outlineAct hl
  · intro s d l r t hl ha hs hnul
    rw [feed_stop isEol headAct hl ha]
    cases t with
    | rejected => trivial
    | accepted q' =>
      unfold headAct at ha
      split at ha
      · split at ha <;> cases ha
      · rename_i hst
        have hseen : s.status.seen = true := by simpa [ConnStatus.seen] using hst
        split at ha
        · cases ha
        · rename_i hdone
          rcases cstr_nil (parseHeaderLine_done hdone) with h | h
          · refine feed_stop isEol outlineAct hl ?_
            simp [outlineAct, hseen, h]
          · rw [nulHeader_stop hl hseen h] at hnul; cases hnul
        · cases ha
  · intro s d l r s' hl ha ih hs hnul
    have hst' : s'.status = .readingHeaders ∧ (s.status.seen = true → cstr l ≠ []) := by
      unfold headAct at ha
      split at ha
      · rename_i hst
        split at ha
        · cases ha
          exact ⟨rfl, fun h => by rw [hst] at h; cases h⟩
        · cases ha
      · split at ha
        · rename_i hgo
          cases ha
          exact ⟨rfl, fun _ => parseHeaderLine_go hgo⟩
        · cases ha
        · cases ha
    have hline : s.status.seen = true → l ≠ [] ∧ l.head? ≠ some NUL := by
      intro h
      have hne := hst'.2 h
      cases l with
      | nil => exact absurd rfl hne
      | cons b bs =>
        refine ⟨by simp, ?_⟩
        rw [List.head?_cons, ne_eq, Option.some.injEq]
        rintro rfl
        exact hne rfl
    have hseen' : s'.status.seen = true := by rw [hst'.1]; rfl
    rw [nulHeader_next hl hline, ← hseen'] at hnul
    rw [feed_next isEol headAct hl ha]
    have hact : outlineAct s.status.seen l = .inl s'.status.seen := by
      rw [hseen']
      cases h : s.status.seen with
      | false => rfl
      | true => simp [outlineAct, (hline h).1]
    have hout := ih (by rw [hst'.1]; rfl) hnul
    have hnext := feed_next isEol outlineAct hl hact
    generalize feed isEol headAct s' r = o at hout ⊢
    cases o with
    | more s₁ r₁ => exact hnext.trans hout
    | stop t r₁ =>
      cases t with
      | accepted => exact hnext.trans hout
      | rejected => trivial

theorem headAct_readDone (s : HeadState) (line : Bytes) :
    (headReq (headAct s line)).readDone = s.req.readDone := by
  unfold headAct
  split
  · have hp : (parseFirstline s.req line).1.readDone = s.req.readDone := by
      simp only [parseFirstline, httpParseRequestLine, httpParseResponseLine]
      repeat' split
      all_goals rfl
    rcases hq : parseFirstline s.req line with ⟨q, b⟩
    rw [hq] at hp
    cases b <;> exact hp
  · split
    · rename_i hq; obtain ⟨hs, rfl⟩ := parseHeaderLine_table hq; rfl
    · rfl
    · rfl

theorem feedHead_readDone (st : ConnStatus) (q : HttpReq) (d : Bytes) :
    (headOutState (feedHead st q d)).2.readDone = q.readDone := by
  refine feed_induction isEol headAct (P := fun s d =>
    (headOutState (feed isEol headAct s d)).2.readDone = s.req.readDone) ?_ ?_ ?_ ⟨st, q⟩ d
  · intro s d hl
    rw [feed_none isEol headAct hl]; rfl
  · intro s d l r t hl ha
    have hu := headAct_readDone s l
    rw [ha] at hu
    rw [feed_stop isEol headAct hl ha]
    cases t <;> exact hu
  · intro s d l r s' hl ha ih
    have hu := headAct_readDone s l
    rw [ha] at hu
    rw [feed_next isEol headAct hl ha]
    exact ih.trans hu

/-! ## Progress -/

/-- What is known of the bytes received so far while a message is read. -/
def Progress (st : ConnStatus) (q : HttpReq) : Prop :=
  match st with
  | .readingFirstline | .readingHeaders =>
    outline q.rx = .more st.seen q.inBuf.data ∧ q.readDone = 0
  | .readingBody =>
    ∃ rest, behindHead q.rx = some rest ∧ httpGetBodyLength q = some q.ntoread ∧
      q.readDone + q.inBuf.data.length = rest.length
  | _ => True

/-- What the reading functions decide, measured by the bytes received: a message they wait for is
making progress, and one they hand on is complete, but for a request without a first line. -/
structure Judged (s : Reader) (out : Reader × Verdict) : Prop where
  waits : out.2 = .wait ∨ out.2 = .readOn → Progress out.1.status out.1.req
  hands : out.2 = .done → complete s.req.kind out.1.req = true ∨
    s.status = .readingFirstline ∧ s.req.kind = .request ∧ out.1.req.uri = s.req.uri

theorem Judged.of_fail {s : Reader} {out : Reader × Verdict} {ec : HttpCode}
    (h : out.2 = .fail ec) : Judged s out := by
  refine ⟨fun h' => ?_, fun h' => ?_⟩
  · rw [h] at h'
    rcases h' with h' | h' <;> cases h'
  · rw [h] at h'; cases h'

theorem Judged.of_done {s : Reader} {out : Reader × Verdict} (h : out.2 = .done)
    (hc : complete s.req.kind out.1.req = true) : Judged s out := by
  refine ⟨fun h' => ?_, fun _ => .inl hc⟩
  rw [h] at h'
  rcases h' with h' | h' <;> cases h'

theorem Judged.of_more {s : Reader} {out : Reader × Verdict} (h : out.2 = .wait ∨ out.2 = .readOn)
    (hp : Progress out.1.status out.1.req) : Judged s out := by
  refine ⟨fun _ => hp, fun h' => ?_⟩
  rw [h'] at h
  rcases h with h | h <;> cases h

theorem judged_httpReadBody {s : Reader} {rest : Bytes} (hr : behindHead s.req.rx = some rest)
    (hn : httpGetBodyLength s.req = some s.req.ntoread)
    (hlen : s.req.readDone + s.req.inBuf.data.length = rest.length)
    (hst : s.status = .readingBody) : Judged s (httpReadBody s) := by
  unfold httpReadBody readBody
  simp only
  by_cases hge : s.req.readDone + bufferSize s.req.inBuf ≥ s.req.ntoread
  · rw [if_pos hge]
    exact .of_done rfl (complete_of_body hr hn (by rw [← hlen]; exact hge))
  · rw [if_neg hge]
    by_cases hpos : bufferSize s.req.inBuf > 0
    · rw [if_pos hpos]
      refine .of_more (.inr rfl) ?_
      simp only [hst, Progress]
      exact ⟨rest, hr, hn, by simpa [bufferSize] using hlen⟩
    · rw [if_neg hpos]
      refine .of_more (.inr rfl) ?_
      simp only [hst, Progress]
      simp only [bufferSize] at hpos ⊢
      exact ⟨rest, hr, hn, by omega⟩

theorem judged_headRead {s : Reader} {rest : Bytes} (hr : behindHead s.req.rx = some rest)
    (hrest : s.req.inBuf.data = rest) (hdone : s.req.readDone = 0) : Judged s (headRead s) := by
  have hget : Judged s (httpGetBody s) := by
    unfold httpGetBody
    split
    · rename_i hk
      refine .of_done rfl (complete_of_bodyless hr ?_)
      simp [hk.1, needsBody, hk.2]
    · simp only
      split
      · exact .of_fail rfl
      · split
        · exact .of_fail rfl
        · rename_i n hn
          have hj := @judged_httpReadBody
            { s with status := .readingBody, req := { s.req with ntoread := n } } rest hr hn
            (by simp [hdone, hrest]) rfl
          refine ⟨hj.waits, fun h => (hj.hands h).imp id fun h₁ => ?_⟩
          cases h₁.1
  unfold headRead
  split
  · exact hget
  · rename_i hk
    split
    · rename_i hb
      refine .of_done rfl (complete_of_bodyless hr ?_)
      simp [hk, needsBody, hb]
    · exact hget

/-- What `conn_recv` makes of `Progress`: the lines in the buffer are those not yet looked at. -/
def Caught (st : ConnStatus) (q : HttpReq) : Prop :=
  match st with
  | .readingFirstline | .readingHeaders =>
    outline q.rx = feed isEol outlineAct st.seen q.inBuf.data ∧ q.readDone = 0
  | st => Progress st q

theorem judged_recvDone {s : Reader} (hs : s.status.reading = true) (hp : Caught s.status s.req)
    (hnul : s.status.inHead = true → nulHeader s.status.seen s.req.inBuf.data = false) :
    Judged s (recvDone s) := by
  by_cases hh : s.status = .readingFirstline ∨ s.status = .readingHeaders
  · have hin : s.status.inHead = true := by rcases hh with h | h <;> rw [h] <;> rfl
    have hcaught : outline s.req.rx = feed isEol outlineAct s.status.seen s.req.inBuf.data ∧
        s.req.readDone = 0 := by
      rcases hh with h | h <;> rw [h] at hp ⊢ <;> exact hp
    have hout := feedHead_outlines s.status s.req s.req.inBuf.data hin (hnul hin)
    have hdone := feedHead_readDone s.status s.req s.req.inBuf.data
    have hst := feedHead_status s.status s.req s.req.inBuf.data hh
    have hsuf := feedHead_rest_suffix s.status s.req s.req.inBuf.data
    have hkind := (kept_readHead s).kind
    rw [recvDone_head s hh]
    unfold readHead at hkind ⊢
    simp only at hkind ⊢
    generalize feedHead s.status s.req s.req.inBuf.data = o at *
    cases o with
    | more s' r =>
      refine .of_more (.inl rfl) ?_
      have hrd : s'.req.readDone = 0 := hdone.trans hcaught.2
      have hmore : outline s.req.rx = .more s'.status.seen r := hcaught.1.trans hout
      have hsuf : r <:+ s.req.inBuf.data := hsuf
      simp only [finishHead]
      rcases hst with h | h <;> simp only [headOutState] at h <;> rw [h] at hmore ⊢ <;>
        exact ⟨by rw [withIn_inBuf, readTo_data hsuf]; exact hmore, hrd⟩
    | stop t r =>
      cases t with
      | rejected st' q' => exact .of_fail rfl
      | accepted q' =>
        simp only [finishHead] at hkind ⊢
        have hbehind : behindHead s.req.rx = some r := by
          have h : outline s.req.rx = .stop () r := hcaught.1.trans hout
          simp only [behindHead, h]
        have hj := @judged_headRead
          ⟨q'.withIn (Buffer.readTo s.req.inBuf r) s.req.rx, .readingHeaders, s.rcvq⟩ r hbehind
          (readTo_data hsuf) (hdone.trans hcaught.2)
        refine ⟨hj.waits, fun h => .inl ?_⟩
        rcases hj.hands h with h₁ | h₁
        · rw [hkind] at h₁; exact h₁
        · cases h₁.1
  · have hb : s.status = .readingBody := by
      cases h : s.status <;> simp_all [ConnStatus.reading]
    have hrd : recvDone s = httpReadBody s := by
      unfold recvDone
      rw [hb]
    rw [hb] at hp
    obtain ⟨rest, hr, hn, hlen⟩ := hp
    rw [hrd]
    exact judged_httpReadBody hr hn hlen hb

/-- More bytes for a message that makes progress. -/
theorem caught_recv {s : Reader} {buf : Buffer} {t : Bytes} (hs : s.status.reading = true)
    (hp : Progress s.status s.req) (hdata : buf.data = s.req.inBuf.data ++ t)
    (hcut : s.req.readDone = 0 → CutOk isEol s.req.rx t) :
    Caught s.status (s.req.withIn buf (s.req.rx ++ t)) := by
  have hhead : outline s.req.rx = .more s.status.seen s.req.inBuf.data ∧ s.req.readDone = 0 →
      outline (s.req.rx ++ t) = feed isEol outlineAct s.status.seen buf.data ∧
        s.req.readDone = 0 := by
    intro h
    refine ⟨?_, h.2⟩
    rw [hdata]
    exact feed_append_more isEol outlineAct h.1 (hcut h.2)
  cases hst : s.status with
  | readingFirstline =>
    rw [hst] at hp hhead
    exact hhead hp
  | readingHeaders =>
    rw [hst] at hp hhead
    exact hhead hp
  | readingBody =>
    rw [hst] at hp
    obtain ⟨rest, hr, hn, hlen⟩ := hp
    refine ⟨rest ++ t, ?_, hn, ?_⟩
    · unfold behindHead outline at hr ⊢
      simp only [withIn_rx]
      split at hr
      · cases hr
      · rename_i u r hstop
        cases hr
        rw [feed_append_stop isEol outlineAct hstop]
        intro hnil
        refine hcut ?_
        rw [hnil, List.length_nil] at hlen
        omega
    · simp only [withIn_inBuf, hdata, List.length_append]
      have : (s.req.withIn buf (s.req.rx ++ t)).readDone = s.req.readDone := rfl
      omega
  | _ => rw [hst] at hs; cases hs

/-- **A message that is handed on is complete**, over all rounds of a read event. -/
theorem judged_connReadN (armed : Bool) (n : Nat) (s : Reader) (hs : s.status.reading = true)
    (hp : Progress s.status s.req) (hok : (rounds armed n s).all roundOk = true) :
    Judged s (connReadN armed n s) := by
  induction n generalizing s with
  | zero =>
    refine ⟨fun h => ?_, fun h => by cases h⟩
    rcases h with h | h <;> cases h
  | succ n ih =>
    obtain ⟨buf, t, hq, hm, he⟩ := connRecv_spec s.req s.rcvq
    have hround : roundOk s = true := by
      refine (List.all_eq_true.mp hok) s ?_
      unfold rounds
      simp only
      repeat' split
      all_goals exact List.mem_cons_self
    simp only [roundOk, Bool.and_eq_true, Bool.not_eq_true'] at hround
    obtain ⟨⟨hsplit, hnul⟩, hclose⟩ := hround
    have hcaught : Caught s.status (s.req.withIn buf (s.req.rx ++ t)) := by
      refine caught_recv hs hp hm.data fun hz => cutOk_of_badCut ?_
      simpa only [splitsLineEnd, hz, beq_self_eq_true, Bool.true_and, hq, withIn_rx,
        List.drop_left] using hsplit
    have hprog : t = [] → Progress s.status (s.req.withIn buf (s.req.rx ++ t)) := by
      intro ht
      have hdata := hm.data
      rw [ht, List.append_nil] at hdata ⊢
      unfold Progress at hp ⊢
      simp only [withIn_rx, withIn_inBuf, hdata]
      exact hp
    rcases hr : connRecv s.req s.rcvq with ⟨ret, q, rcvq⟩
    simp only [rounds, hr] at hok
    rw [hr] at hq hm he
    simp only [nulLine, closesEarly, hr] at hnul hclose
    simp only at hq hm he
    subst hq
    simp only [connReadN, hr, withIn_inBuf, bufferSize, List.length_eq_zero_iff] at hok ⊢
    simp only [withIn_inBuf] at hnul hclose
    by_cases hagain : ret = SHS_AGAIN ∧ buf.data = []
    · rw [if_pos hagain]
      refine .of_more (.inl rfl) (hprog ?_)
      have hdata := hm.data
      rw [hagain.2] at hdata
      exact (List.append_eq_nil_iff.mp hdata.symm).2
    · rw [if_neg hagain]
      by_cases herr : ret = SHS_ERROR
      · rw [if_pos herr]; exact .of_fail rfl
      · rw [if_neg herr]
        by_cases heof : ret = 0 ∧ buf.data = []
        · rw [if_pos heof]
          simp only [heof.1, heof.2, beq_self_eq_true, List.isEmpty_nil, Bool.and_self,
            Bool.true_and, Bool.or_eq_false_iff] at hclose
          refine ⟨fun h => (by rcases h with h | h <;> cases h), fun _ => .inr ?_⟩
          refine ⟨by simpa [ConnStatus.seen] using hclose.1, ?_, rfl⟩
          cases hk : s.req.kind with
          | request => rfl
          | response => rw [hk] at hclose; exact absurd hclose.2 (by decide)
        · rw [if_neg heof]
          rw [if_neg (by simp only [hagain, herr, heof, or_self, not_false_eq_true])] at hok
          have hj := judged_recvDone
            (s := ⟨s.req.withIn buf (s.req.rx ++ t), s.status, rcvq⟩) hs hcaught
            fun hin => by simpa only [hin, Bool.true_and, withIn_inBuf] using hnul
          rcases hout : recvDone ⟨s.req.withIn buf (s.req.rx ++ t), s.status, rcvq⟩ with ⟨s', v⟩
          rw [hout] at hj
          simp only [hout] at hok ⊢
          cases v with
          | readOn =>
            have hprog' := hj.waits (.inr rfl)
            simp only at hok ⊢
            cases armed with
            | false => exact .of_more (.inl rfl) hprog'
            | true =>
              simp only [if_true, List.all_cons, Bool.and_eq_true] at hok ⊢
              have hst' := (recvDone_readOn hout).2.2
              have hkind : s'.req.kind = s.req.kind := by
                have := (kept_recvDone ⟨s.req.withIn buf (s.req.rx ++ t), s.status, rcvq⟩).kind
                rw [hout] at this; exact this
              have hin := ih s' (by rw [hst']; rfl) hprog' hok.2
              refine ⟨hin.waits, fun h => .inl ?_⟩
              rcases hin.hands h with h₁ | h₁
              · rw [hkind] at h₁; exact h₁
              · rw [hst'] at h₁; cases h₁.1
          | _ => exact { hj with }

theorem judged_connRead (armed : Bool) (s : Reader) (hs : s.status.reading = true)
    (hp : Progress s.status s.req) (hok : soundRead armed s = true) :
    Judged s (connRead armed s) := judged_connReadN armed _ s hs hp hok

end Http
end Shs
