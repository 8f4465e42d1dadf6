import Shs.Http.Receive

/-!
# Http.Body

How `http_read_body` collects a body from the pieces that `conn_recv` delivers. `collect` is what
the callback sees, piece by piece; `bodyRun_collect` shows that the read handler computes it for
every sequence of read events, and `collect_exact_iff` when it is the body.
-/

namespace Shs
namespace Http

/-! ## Pieces -/

/-- What an empty input buffer receives, and the socket behind it. -/
def nextPiece (rs : List RecvResult) : Bytes × List RecvResult :=
  let (_, buf, rs) := recvLoop rs (bufferCreate CONN_DEFAULT_RCVBUF)
  (buf.data, rs)

/-- The pieces that at most `n` calls of `conn_recv` in a row deliver, up to the first that
delivers nothing. -/
def piecesN : Nat → List RecvResult → List Bytes × List RecvResult
  | 0, rs => ([], rs)
  | n + 1, rs =>
    match nextPiece rs with
    | ([], rs) => ([], rs)
    | (p, rs) => (p :: (piecesN n rs).1, (piecesN n rs).2)

/-- The pieces of one read event. -/
def pieces (rs : List RecvResult) : List Bytes × List RecvResult :=
  piecesN ((rcvqData rs).length + 1) rs

/-- The pieces of the read events `evs`, with `rs` in the socket before them. -/
def streamPieces : List RecvResult → List (List RecvResult) → List Bytes
  | rs, [] => (pieces rs).1
  | rs, e :: es => (pieces rs).1 ++ streamPieces ((pieces rs).2 ++ e) es

/-- The body of length `n` that is seen when the bytes `acc` have been stored and the pieces `ps`
follow. -/
def collect (n : Nat) : Bytes → List Bytes → Option Bytes
  | _, [] => none
  | acc, p :: ps =>
    if n ≤ acc.length + p.length then some (if acc = [] then p.take n else acc ++ p)
    else collect n (acc ++ p) ps

/-- The piece with byte `n` of the body is the first one that has body bytes, or it ends with
that byte. -/
def aligned (n : Nat) : Nat → List Bytes → Bool
  | _, [] => false
  | seen, p :: ps =>
    if n ≤ seen + p.length then seen == 0 || seen + p.length == n
    else aligned n (seen + p.length) ps

theorem collect_exact_iff {n : Nat} {acc : Bytes} {ps : List Bytes} (hacc : acc.length < n)
    (hn : n ≤ (acc ++ ps.flatten).length) :
    collect n acc ps = some ((acc ++ ps.flatten).take n) ↔ aligned n acc.length ps = true := by
  induction ps generalizing acc with
  | nil =>
    simp only [List.flatten_nil, List.append_nil] at hn
    omega
  | cons p ps ih =>
    simp only [collect, aligned]
    split
    · rename_i hge
      by_cases hnil : acc = []
      · subst hnil
        simp only [List.length_nil, Nat.zero_add, List.nil_append, List.flatten_cons] at hge ⊢
        rw [List.take_append_of_le_length hge]
        simp
      · have htake : (acc ++ (p :: ps).flatten).take n = (acc ++ p).take n := by
          rw [List.flatten_cons, ← List.append_assoc, List.take_append_of_le_length]
          simpa using hge
        have hpos : acc.length ≠ 0 := fun h => hnil (List.eq_nil_of_length_eq_zero h)
        simp only [hnil, if_false, htake, Option.some.injEq, Bool.or_eq_true, beq_iff_eq, hpos,
          false_or]
        constructor
        · intro h
          have := congrArg List.length h
          simp only [List.length_append, List.length_take] at this; omega
        · intro h
          rw [List.take_of_length_le]
          simp only [List.length_append]; omega
    · rename_i hlt
      have hlen : (acc ++ p).length = acc.length + p.length := by simp
      have := @ih (acc ++ p) (by omega) (by simpa using hn)
      rw [hlen] at this
      rw [← this]
      simp

theorem collect_append {n : Nat} {acc : Bytes} {ps qs : List Bytes}
    (h : (acc ++ ps.flatten).length < n) :
    collect n acc (ps ++ qs) = collect n (acc ++ ps.flatten) qs := by
  induction ps generalizing acc with
  | nil => simp
  | cons p ps ih =>
    have hlt : ¬ n ≤ acc.length + p.length := by
      simp only [List.flatten_cons, List.length_append] at h; omega
    simp only [List.cons_append, collect, if_neg hlt]
    rw [ih (by simpa using h)]
    simp

theorem collect_some_append {n : Nat} {acc b : Bytes} {ps : List Bytes}
    (h : collect n acc ps = some b) (qs : List Bytes) : collect n acc (ps ++ qs) = some b := by
  induction ps generalizing acc with
  | nil => simp [collect] at h
  | cons p ps ih =>
    simp only [collect, List.cons_append] at h ⊢
    split at h
    · rename_i hge
      rw [if_pos hge]; exact h
    · rename_i hlt
      rw [if_neg hlt]; exact ih h

theorem collect_isSome {n : Nat} {acc : Bytes} {ps : List Bytes} (hacc : acc.length < n)
    (hn : n ≤ (acc ++ ps.flatten).length) : ∃ b, collect n acc ps = some b := by
  induction ps generalizing acc with
  | nil =>
    simp only [List.flatten_nil, List.append_nil] at hn
    omega
  | cons p ps ih =>
    simp only [collect]
    split
    · exact ⟨_, rfl⟩
    · exact ih (by simp only [List.length_append]; omega) (by simpa using hn)

/-! ## The read handler -/

/-- No end of stream and no error wait in the socket. -/
def Quiet (rs : List RecvResult) : Prop := .eof ∉ rs ∧ .error ∉ rs

/-- `acc` of the `n` bytes of the body have been stored, and the buffer is empty. -/
structure Collecting (n : Nat) (acc : Bytes) (s : Reader) : Prop where
  status : s.status = .readingBody
  size : s.req.inBuf.size = CONN_DEFAULT_RCVBUF
  data : s.req.inBuf.data = []
  body : s.req.inputBody = acc
  readDone : s.req.readDone = acc.length
  ntoread : s.req.ntoread = n
  less : acc.length < n
  quiet : Quiet s.rcvq

theorem readBody_collect (q : HttpReq) (h : q.readDone = q.inputBody.length) :
    if q.ntoread ≤ q.inputBody.length + q.inBuf.data.length then
      (readBody q).2 = true ∧ (readBody q).1.inputBody =
        if q.inputBody = [] then q.inBuf.data.take q.ntoread else q.inputBody ++ q.inBuf.data
    else
      ∃ buf, buf.size = q.inBuf.size ∧ buf.data = [] ∧ readBody q =
        ({ q with
            inBuf := buf, inputBody := q.inputBody ++ q.inBuf.data,
            readDone := (q.inputBody ++ q.inBuf.data).length }, false) := by
  simp only [readBody, h, bufferSize, ge_iff_le]
  split
  · simp [List.length_eq_zero_iff]
  · split
    · exact ⟨bufferPull q.inBuf q.inBuf.data.length, rfl, by simp, by simp⟩
    · rename_i hzero
      have hnil : q.inBuf.data = [] := List.eq_nil_of_length_eq_zero (by omega)
      refine ⟨q.inBuf, rfl, hnil, ?_⟩
      simp [hnil]

theorem recvLoop_shrink (rs : List RecvResult) (buf : Buffer) :
    recvLoop rs buf = recvLoop rs (bufferShrink buf) := by
  cases rs <;> rfl

/-- An empty buffer receives a piece, wherever its `pos` is. -/
theorem recvLoop_nextPiece {buf : Buffer} (hsize : buf.size = CONN_DEFAULT_RCVBUF)
    (hdata : buf.data = []) (rs : List RecvResult) :
    (recvLoop rs buf).2 = (⟨CONN_DEFAULT_RCVBUF, 0, (nextPiece rs).1⟩, (nextPiece rs).2) := by
  have hbuf : bufferShrink buf = bufferCreate CONN_DEFAULT_RCVBUF := by
    simp [bufferShrink, bufferCreate, hsize, hdata]
  obtain ⟨t, hm, -⟩ := recvLoop_spec rs (bufferCreate CONN_DEFAULT_RCVBUF)
  rw [recvLoop_shrink, hbuf, nextPiece]
  rcases hr : recvLoop rs (bufferCreate CONN_DEFAULT_RCVBUF) with ⟨ret, ⟨size, pos, data⟩, rs'⟩
  rw [hr] at hm
  simp only at hm ⊢
  rw [show size = CONN_DEFAULT_RCVBUF from hm.size, show pos = 0 from hm.pos]

theorem nextPiece_spec (rs : List RecvResult) :
    rcvqData rs = (nextPiece rs).1 ++ rcvqData (nextPiece rs).2 ∧
      (Quiet rs → Quiet (nextPiece rs).2) := by
  obtain ⟨t, hm, -⟩ := recvLoop_spec rs (bufferCreate CONN_DEFAULT_RCVBUF)
  have hd : (nextPiece rs).1 = t := hm.data
  exact ⟨by rw [hd]; exact hm.socket, fun h => ⟨fun he => h.1 (hm.eof he), fun he => h.2 (hm.error he)⟩⟩

theorem connRecv_collecting {n : Nat} {acc : Bytes} {s : Reader} (h : Collecting n acc s) :
    ∃ ret, connRecv s.req s.rcvq =
      (ret, s.req.withIn ⟨CONN_DEFAULT_RCVBUF, 0, (nextPiece s.rcvq).1⟩
          (s.req.rx ++ (nextPiece s.rcvq).1), (nextPiece s.rcvq).2) ∧
      ret ≠ SHS_ERROR ∧ ((nextPiece s.rcvq).1 = [] → ret = SHS_AGAIN) ∧ ret ≠ 0 := by
  obtain ⟨t, hm, he⟩ := recvLoop_spec s.rcvq s.req.inBuf
  have hp := recvLoop_nextPiece h.size h.data s.rcvq
  refine ⟨(recvLoop s.rcvq s.req.inBuf).1, ?_, ?_⟩
  · simp only [connRecv, hp, h.data, HttpReq.withIn, List.length_nil, List.drop_zero]
  · rw [hp] at hm he
    revert he
    generalize (recvLoop s.rcvq s.req.inBuf).1 = ret
    intro he
    have hcap : (0 : Int) < CONN_DEFAULT_RCVBUF := by decide
    cases he with
    | again => exact ⟨by decide, fun _ => rfl, by decide⟩
    | eof h' => exact absurd (hm.eof (List.mem_of_head? h')) h.quiet.1
    | error h' => exact absurd (hm.error (List.mem_of_head? h')) h.quiet.2
    | full h' =>
      simp only at h'
      refine ⟨?_, ?_, ?_⟩
      · simp only [SHS_ERROR, ne_eq]; omega
      · intro hnil; rw [hnil] at h'; exact absurd h' (by decide)
      · show ((nextPiece s.rcvq).1.length : Int) ≠ 0
        omega

/-- What a read event does to a body of which `acc` is stored, when it delivers the pieces `ps`
and leaves `rest` in the socket. -/
def Collected (n : Nat) (acc : Bytes) (ps : List Bytes) (rest : List RecvResult)
    (out : Reader × Verdict) : Prop :=
  match collect n acc ps with
  | none => out.2 = .wait ∧ Collecting n (acc ++ ps.flatten) out.1 ∧ out.1.rcvq = rest
  | some b => out.2 = .done ∧ out.1.req.inputBody = b

theorem connReadN_collected {m n : Nat} {acc : Bytes} {s : Reader} (h : Collecting n acc s)
    (hm : (rcvqData s.rcvq).length < m) :
    Collected n acc (piecesN m s.rcvq).1 (piecesN m s.rcvq).2 (connReadN true m s) := by
  induction m generalizing acc s with
  | zero => omega
  | succ m ih =>
    obtain ⟨ret, hrecv, herr, hagain, hzero⟩ := connRecv_collecting h
    obtain ⟨hsock, hquiet⟩ := nextPiece_spec s.rcvq
    simp only [connReadN, hrecv, piecesN, withIn_inBuf, bufferSize]
    rcases hp : nextPiece s.rcvq with ⟨p, rs⟩
    rw [hp] at hagain hsock hquiet
    cases p with
    | nil =>
      simp only [Collected, collect, hagain rfl, List.length_nil, and_self, if_true,
        List.flatten_nil, List.append_nil, true_and]
      exact ⟨⟨h.status, rfl, rfl, h.body, h.readDone, h.ntoread, h.less, hquiet h.quiet⟩, trivial⟩
    | cons c cs =>
      set q := s.req.withIn ⟨CONN_DEFAULT_RCVBUF, 0, c :: cs⟩ (s.req.rx ++ c :: cs) with hq
      have hqb : q.inputBody = acc := h.body
      have hqn : q.ntoread = n := h.ntoread
      have hqd : q.inBuf.data = c :: cs := rfl
      have hread := readBody_collect q (by rw [hqb]; exact h.readDone)
      rw [hqb, hqn, hqd] at hread
      have hdone : recvDone { s with req := q, rcvq := rs } =
          httpReadBody { s with req := q, rcvq := rs } := by
        simp only [recvDone, h.status]
      have hne : (c :: cs).length ≠ 0 := by simp
      rw [if_neg (fun h => hne h.2), if_neg herr, if_neg (fun h => hzero h.1), hdone]
      simp only [Collected, collect, httpReadBody]
      split at hread
      · rename_i hge
        obtain ⟨hb, hbody⟩ := hread
        rcases hrb : readBody q with ⟨q', b⟩
        rw [hrb] at hb hbody
        simp only at hb hbody
        subst hb
        simp only [if_pos hge]
        exact ⟨trivial, hbody⟩
      · rename_i hlt
        obtain ⟨buf, hbsize, hbdata, hrb⟩ := hread
        simp only [hrb, if_neg hlt, if_true]
        have hcol : Collecting n (acc ++ c :: cs)
            { s with
              req := { q with
                inBuf := buf, inputBody := acc ++ c :: cs, ntoread := n,
                readDone := (acc ++ c :: cs).length },
              rcvq := rs } := by
          refine ⟨h.status, hbsize, hbdata, rfl, rfl, rfl, ?_, hquiet h.quiet⟩
          simp only [List.length_append]; omega
        have := ih hcol (by
          have := congrArg List.length hsock
          simp only [List.length_append, List.length_cons] at this ⊢; omega)
        unfold Collected at this
        split at this
        · rename_i hc
          simp only [hc, List.flatten_cons, ← List.append_assoc]
          exact this
        · rename_i b hc
          simp only [hc]
          exact this

/-! ## Read events -/

/-- A read event after the head has been read; `rs` is what `recv` will give. -/
def bodyEvent (out : Reader × Verdict) (rs : List RecvResult) : Reader × Verdict :=
  match out with
  | (s, .wait) => connRead true { s with rcvq := s.rcvq ++ rs }
  | out => out

/-- The read handler from the end of the head on, in the event that delivered the head and in the
events `evs` after it. -/
def bodyRun (s : Reader) (evs : List (List RecvResult)) : Reader × Verdict :=
  evs.foldl bodyEvent
    (match headRead s with
      | (s, .readOn) => connRead true s
      | out => out)

/-- The pieces a body is read from: what the buffer holds behind the head, and what `conn_recv`
delivers then. -/
def bodyPieces (s : Reader) (evs : List (List RecvResult)) : List Bytes :=
  s.req.inBuf.data :: streamPieces s.rcvq evs

/-- The head has been read, and a body of `n` bytes has to follow. -/
structure BodyDue (n : Nat) (s : Reader) : Prop where
  size : s.req.inBuf.size = CONN_DEFAULT_RCVBUF
  body : s.req.inputBody = []
  readDone : s.req.readDone = 0
  kind : s.req.kind = .request → s.req.type = .post
  code : s.req.kind = .response → bodyless s.req.responseCode = false
  chunked : httpIsChunked s.req = false
  length : httpGetBodyLength s.req = some n
  quiet : Quiet s.rcvq

theorem piecesN_eq {m : Nat} {rs : List RecvResult} (h : (rcvqData rs).length < m) :
    piecesN m rs = pieces rs := by
  have key : ∀ k m (rs : List RecvResult), (rcvqData rs).length < k → (rcvqData rs).length < m →
      piecesN k rs = piecesN m rs := by
    intro k
    induction k with
    | zero => intro m rs hk; omega
    | succ k ih =>
      intro m rs hk hm
      obtain ⟨m, rfl⟩ : ∃ m', m = m' + 1 := ⟨m - 1, by omega⟩
      have hsock := congrArg List.length (nextPiece_spec rs).1
      rw [List.length_append] at hsock
      simp only [piecesN]
      rcases hp : nextPiece rs with ⟨p, rs'⟩
      rw [hp] at hsock
      cases p with
      | nil => rfl
      | cons c cs =>
        simp only [List.length_cons] at hsock
        simp only [ih m rs' (by omega) (by omega)]
  exact key m _ rs h (Nat.lt_succ_self _)

theorem connRead_collected {n : Nat} {acc : Bytes} {s : Reader} (h : Collecting n acc s) :
    Collected n acc (pieces s.rcvq).1 (pieces s.rcvq).2 (connRead true s) := by
  have := connReadN_collected h (m := (rcvqData s.rcvq).length + 2) (by omega)
  rwa [piecesN_eq (by omega)] at this

theorem bodyEvent_done {out : Reader × Verdict} (h : out.2 = .done)
    (evs : List (List RecvResult)) : evs.foldl bodyEvent out = out := by
  induction evs with
  | nil => rfl
  | cons e es ih =>
    obtain ⟨s, v⟩ := out
    simp only at h
    subst h
    exact ih

/-- A body that the events `evs` complete is collected from their pieces. -/
theorem foldl_bodyEvent {n : Nat} {acc : Bytes} {out : Reader × Verdict} {rs : List RecvResult}
    {evs : List (List RecvResult)} (hq : ∀ e ∈ evs, Quiet e)
    (h : Collected n acc (pieces rs).1 (pieces rs).2 out) {b : Bytes}
    (hb : collect n acc (streamPieces rs evs) = some b) :
    (evs.foldl bodyEvent out).2 = .done ∧ (evs.foldl bodyEvent out).1.req.inputBody = b := by
  induction evs generalizing acc out rs with
  | nil =>
    simp only [streamPieces] at hb
    simp only [Collected, hb] at h
    exact h
  | cons e es ih =>
    simp only [streamPieces] at hb
    cases hc : collect n acc (pieces rs).1 with
    | some b' =>
      simp only [Collected, hc] at h
      rw [collect_some_append hc, Option.some.injEq] at hb
      rw [bodyEvent_done h.1, ← hb]
      exact h
    | none =>
      simp only [Collected, hc] at h
      obtain ⟨hv, hcol, hrest⟩ := h
      rw [collect_append hcol.less] at hb
      obtain ⟨s, v⟩ := out
      simp only at hv hcol hrest
      subst hv
      have hqe := hq e (by simp)
      have hcol' : Collecting n (acc ++ (pieces rs).1.flatten) { s with rcvq := s.rcvq ++ e } := by
        refine ⟨hcol.status, hcol.size, hcol.data, hcol.body, hcol.readDone, hcol.ntoread,
          hcol.less, ?_, ?_⟩
        · simp only [List.mem_append, not_or]; exact ⟨hcol.quiet.1, hqe.1⟩
        · simp only [List.mem_append, not_or]; exact ⟨hcol.quiet.2, hqe.2⟩
      have hnext := connRead_collected hcol'
      simp only [hrest] at hnext
      refine ih (fun e he => hq e (by simp [he])) ?_ hb
      simp only [bodyEvent, hrest]
      exact hnext

theorem httpGetBodyLength_pos {q : HttpReq} {n : Nat} (h : httpGetBodyLength q = some n) :
    0 < n := by
  unfold httpGetBodyLength at h
  split at h
  · cases h
  · rename_i v _
    simp only at h
    split at h
    · cases h
    · rename_i hne
      simp only [Option.some.injEq] at h
      simp only [not_or, Int.not_le] at hne
      omega

theorem headRead_bodyDue {n : Nat} {s : Reader} (h : BodyDue n s) :
    headRead s = httpReadBody
      { s with status := .readingBody, req := { s.req with ntoread := n } } := by
  have hget : httpGetBody s = httpReadBody
      { s with status := .readingBody, req := { s.req with ntoread := n } } := by
    unfold httpGetBody
    rw [if_neg (fun hk => hk.2 (h.kind hk.1))]
    simp only [h.chunked, h.length, Bool.false_eq_true, if_false]
  unfold headRead
  split
  · exact hget
  · rename_i hk
    rw [h.code hk]
    exact hget

/-- The callback sees what `collect` makes of the pieces. -/
theorem bodyRun_collect {n : Nat} {s : Reader} {evs : List (List RecvResult)} {b : Bytes}
    (h : BodyDue n s) (hq : ∀ e ∈ evs, Quiet e)
    (hb : collect n [] (bodyPieces s evs) = some b) :
    (bodyRun s evs).2 = .done ∧ (bodyRun s evs).1.req.inputBody = b := by
  rw [bodyRun, headRead_bodyDue h]
  set q : HttpReq := { s.req with ntoread := n } with hqdef
  have hqb : q.inputBody = [] := h.body
  have hqn : q.ntoread = n := rfl
  have hqd : q.inBuf.data = s.req.inBuf.data := rfl
  have hread := readBody_collect q (by rw [hqb]; exact h.readDone)
  rw [hqb, hqn, hqd, List.length_nil, Nat.zero_add, List.nil_append] at hread
  simp only [bodyPieces, collect, List.length_nil, Nat.zero_add, if_true, List.nil_append] at hb
  unfold httpReadBody
  split at hread
  · rename_i hge
    rw [if_pos hge, Option.some.injEq] at hb
    rw [if_pos rfl] at hread
    rcases hrb : readBody q with ⟨q', done⟩
    rw [hrb] at hread
    obtain ⟨hd, hbody⟩ := hread
    simp only at hd hbody
    subst hd
    rw [bodyEvent_done rfl]
    exact ⟨rfl, by rw [← hb]; exact hbody⟩
  · rename_i hlt
    rw [if_neg hlt] at hb
    obtain ⟨buf, hbsize, hbdata, hrb⟩ := hread
    rw [hrb]
    refine foldl_bodyEvent hq (connRead_collected ?_) hb
    exact ⟨rfl, by rw [← h.size]; exact hbsize, hbdata, rfl, rfl, rfl, by omega, h.quiet⟩

/-- **The body is exact when its last piece is the only one or ends with it.** -/
theorem body_exact_iff (n : Nat) (s : Reader) (evs : List (List RecvResult)) (h : BodyDue n s)
    (hq : ∀ e ∈ evs, Quiet e) (hn : n ≤ (bodyPieces s evs).flatten.length) :
    ((bodyRun s evs).2 = .done ∧ (bodyRun s evs).1.req.inputBody.length = n ∧
        (bodyRun s evs).1.req.inputBody = (bodyPieces s evs).flatten.take n) ↔
      aligned n 0 (bodyPieces s evs) = true := by
  have hpos := httpGetBodyLength_pos h.length
  have hiff := @collect_exact_iff n [] (bodyPieces s evs) hpos (by simpa using hn)
  rw [List.nil_append, List.length_nil] at hiff
  obtain ⟨b, hb⟩ := @collect_isSome n [] (bodyPieces s evs) hpos (by simpa using hn)
  obtain ⟨hdone, hbody⟩ := bodyRun_collect h hq hb
  rw [← hiff, hb, Option.some.injEq, hbody]
  constructor
  · exact fun ⟨_, _, hexact⟩ => hexact
  · intro hexact
    refine ⟨hdone, ?_, hexact⟩
    rw [hexact, List.length_take]; omega

/-- A POST request whose head announces four bytes; two of them have arrived with it. -/
def postAb : Reader :=
  (readHead ⟨{ inBuf := ⟨CONN_DEFAULT_RCVBUF, 0,
    str "POST /x HTTP/1.1\r\nContent-Length: 4\r\n\r\nab"⟩ }, .readingFirstline, []⟩).1

theorem postAb_bodyDue : BodyDue 4 postAb := by
  obtain ⟨hsize, hbody, hdone, htype, hkind, hchunked, hlength, hquiet⟩ :
      postAb.req.inBuf.size = CONN_DEFAULT_RCVBUF ∧ postAb.req.inputBody = [] ∧
        postAb.req.readDone = 0 ∧ postAb.req.type = .post ∧ postAb.req.kind ≠ .response ∧
        httpIsChunked postAb.req = false ∧ httpGetBodyLength postAb.req = some 4 ∧
        .eof ∉ postAb.rcvq ∧ .error ∉ postAb.rcvq := by
    decide +kernel
  exact ⟨hsize, hbody, hdone, fun _ => htype, fun h => absurd h hkind, hchunked, hlength, hquiet⟩

/-- The other two bytes come alone, and the body is right. -/
theorem body_exact_postAb :
    (bodyRun postAb [dataOf (str "cd")]).1.req.inputBody = str "abcd" := by
  have h := (body_exact_iff 4 postAb [dataOf (str "cd")] postAb_bodyDue
    (by unfold Quiet; decide +kernel) (by decide +kernel)).mpr (by decide +kernel)
  rw [h.2.2]
  decide +kernel

/-- The first bytes of the next request come with the rest of the body, and become part of it. -/
theorem body_overshoot :
    ¬ ∀ (n : Nat) (s : Reader) (evs : List (List RecvResult)), BodyDue n s →
      (∀ e ∈ evs, Quiet e) → n ≤ (bodyPieces s evs).flatten.length →
      ((bodyRun s evs).2 = .done ∧ (bodyRun s evs).1.req.inputBody.length = n ∧
        (bodyRun s evs).1.req.inputBody = (bodyPieces s evs).flatten.take n) := by
  intro h
  have := h 4 postAb [dataOf (str "cdEF")] postAb_bodyDue (by unfold Quiet; decide +kernel)
    (by decide +kernel)
  revert this
  decide +kernel

end Http
end Shs
