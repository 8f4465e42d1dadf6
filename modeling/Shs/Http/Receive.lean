import Shs.Http.Head

/-!
# Http.Receive

What `conn_recv` stores, and that `conn_read_handler` comes to an end: each round of its
recursion through `http_read_body` takes bytes off the socket.
-/

namespace Shs
namespace Http

open LineStream

/-- The socket when the bytes `bs` wait in it. -/
def dataOf (bs : Bytes) : List RecvResult := putBack bs []

/-! ## Receiving one chunk -/

theorem recvLoop_data (b : Byte) (bs : Bytes) (rs : List RecvResult) (buf : Buffer) :
    recvLoop (.data b bs :: rs) buf =
      if buf.size - buf.data.length = 0 then
        ((buf.data.length : Int), bufferShrink buf, .data b bs :: rs)
      else if (b :: bs).length ≤ buf.size - buf.data.length then
        recvLoop rs (bufferUsed (bufferShrink buf) (b :: bs))
      else
        let buf' := bufferUsed (bufferShrink buf) ((b :: bs).take (buf.size - buf.data.length))
        (buf'.data.length, buf', putBack ((b :: bs).drop (buf.size - buf.data.length)) rs) := by
  simp only [recvLoop, bufferFreeSize, bufferShrink, bufferSize, Nat.zero_add]

theorem recvLoop_dataOf (buf : Buffer) (bs : Bytes) (h : buf.data.length ≤ buf.size) :
    recvLoop (dataOf bs) buf =
      (if (buf.data ++ bs).length < buf.size then SHS_AGAIN else buf.size,
        ⟨buf.size, 0, (buf.data ++ bs).take buf.size⟩,
        dataOf ((buf.data ++ bs).drop buf.size)) := by
  have hnil : ∀ b : Buffer, b.data.length ≤ b.size → recvLoop [] b =
      (if b.data.length < b.size then SHS_AGAIN else b.size, ⟨b.size, 0, b.data⟩, []) := by
    intro b hb
    simp only [recvLoop, bufferFreeSize, bufferShrink, bufferSize, Nat.zero_add]
    by_cases hlt : b.data.length < b.size
    · rw [if_neg (by omega), if_pos hlt]
    · rw [if_pos (by omega), if_neg hlt, show b.data.length = b.size by omega]
  cases bs with
  | nil =>
    rw [show dataOf [] = [] from rfl, hnil buf h]
    simp only [List.append_nil, List.take_of_length_le h, List.drop_of_length_le h]
    rfl
  | cons b bs =>
    simp only [dataOf, putBack, recvLoop_data]
    by_cases hfull : buf.size - buf.data.length = 0
    · have hlen : buf.data.length = buf.size := by omega
      rw [if_pos hfull, if_neg (by simp; omega)]
      simp only [bufferShrink, hlen, Prod.mk.injEq, true_and]
      rw [← hlen, List.take_left', List.drop_left']
      all_goals simp
    · rw [if_neg hfull]
      split
      · rename_i hle
        rw [hnil]
        · simp only [bufferUsed, bufferShrink, Prod.mk.injEq]
          refine ⟨rfl, ?_, ?_⟩
          · rw [List.take_of_length_le]
            simp only [List.length_append]; omega
          · rw [List.drop_of_length_le]
            simp only [List.length_append]; omega
        · simp only [bufferUsed, bufferShrink, List.length_append]; omega
      · rename_i hgt
        simp only [bufferUsed, bufferShrink, Prod.mk.injEq]
        have htake : (buf.data ++ b :: bs).take buf.size =
            buf.data ++ (b :: bs).take (buf.size - buf.data.length) := by
          rw [List.take_append, List.take_of_length_le h]
        have hdrop : (buf.data ++ b :: bs).drop buf.size =
            (b :: bs).drop (buf.size - buf.data.length) := by
          rw [List.drop_append, List.drop_of_length_le h, List.nil_append]
        rw [htake, hdrop]
        refine ⟨?_, rfl, rfl⟩
        rw [if_neg (by simp only [List.length_append]; omega)]
        simp only [List.length_append, List.length_take]
        omega

/-- The room in a buffer that has been emptied of the lines read so far. -/
theorem connRecv_dataOf (q : HttpReq) (bs : Bytes) (hsize : q.inBuf.data.length ≤ q.inBuf.size) :
    (connRecv q (dataOf bs)).2 =
      (q.withIn ⟨q.inBuf.size, 0, (q.inBuf.data ++ bs).take q.inBuf.size⟩
          (q.rx ++ bs.take (q.inBuf.size - q.inBuf.data.length)),
        dataOf ((q.inBuf.data ++ bs).drop q.inBuf.size)) := by
  unfold connRecv
  rw [recvLoop_dataOf _ _ hsize]
  simp only [HttpReq.withIn, List.take_append, List.take_of_length_le hsize]
  rw [List.drop_left]


/-! ## Any socket -/

/-- Why `conn_recv` returned `ret` with the buffer `buf` and the socket `rs`. -/
inductive RecvEnd (buf : Buffer) (rs : List RecvResult) : Int → Prop
  | again : RecvEnd buf rs SHS_AGAIN
  | eof (h : rs.head? = some .eof) : RecvEnd buf rs 0
  | error (h : rs.head? = some .error) : RecvEnd buf rs SHS_ERROR
  | full (h : buf.size ≤ buf.data.length) : RecvEnd buf rs buf.data.length

/-- `conn_recv` moves bytes from the front of the socket to the end of the buffer. -/
structure Moved (buf : Buffer) (rs : List RecvResult) (buf' : Buffer) (rs' : List RecvResult)
    (t : Bytes) : Prop where
  size : buf'.size = buf.size
  pos : buf'.pos = 0
  data : buf'.data = buf.data ++ t
  socket : rcvqData rs = t ++ rcvqData rs'
  eof : .eof ∈ rs' → .eof ∈ rs
  error : .error ∈ rs' → .error ∈ rs

theorem rcvqData_putBack (bs : Bytes) (rs : List RecvResult) :
    rcvqData (putBack bs rs) = bs ++ rcvqData rs := by
  cases bs <;> simp [putBack, rcvqData]

theorem mem_putBack {r : RecvResult} {bs : Bytes} {rs : List RecvResult}
    (hr : ∀ b bs, r ≠ .data b bs) (h : r ∈ putBack bs rs) : r ∈ rs := by
  cases bs with
  | nil => exact h
  | cons c cs =>
    simp only [putBack, List.mem_cons] at h
    rcases h with h | h
    · exact absurd h (hr c cs)
    · exact h

theorem recvLoop_spec (rs : List RecvResult) (buf : Buffer) :
    ∃ t, Moved buf rs (recvLoop rs buf).2.1 (recvLoop rs buf).2.2 t ∧
      RecvEnd (recvLoop rs buf).2.1 (recvLoop rs buf).2.2 (recvLoop rs buf).1 := by
  induction rs generalizing buf with
  | nil =>
    refine ⟨[], ?_⟩
    simp only [recvLoop, bufferFreeSize, bufferShrink, bufferSize, Nat.zero_add]
    split
    · exact ⟨⟨rfl, rfl, by simp, rfl, id, id⟩, .full (by simp only; omega)⟩
    · exact ⟨⟨rfl, rfl, by simp, rfl, id, id⟩, .again⟩
  | cons r rs ih =>
    by_cases hfull : buf.size - buf.data.length = 0
    · refine ⟨[], ?_⟩
      have : recvLoop (r :: rs) buf = ((buf.data.length : Int), bufferShrink buf, r :: rs) := by
        simp only [recvLoop, bufferFreeSize, bufferShrink, bufferSize, Nat.zero_add, if_pos hfull]
      rw [this]
      exact ⟨⟨rfl, rfl, by simp, rfl, id, id⟩, .full (by simp only [bufferShrink]; omega)⟩
    · cases r with
      | again =>
        refine ⟨[], ?_⟩
        simp only [recvLoop, bufferFreeSize, bufferShrink, Nat.zero_add, if_neg hfull]
        exact ⟨⟨rfl, rfl, by simp, rfl, fun h => by simp [h], fun h => by simp [h]⟩, .again⟩
      | eof =>
        refine ⟨[], ?_⟩
        simp only [recvLoop, bufferFreeSize, bufferShrink, Nat.zero_add, if_neg hfull]
        exact ⟨⟨rfl, rfl, by simp, rfl, id, id⟩, .eof rfl⟩
      | error =>
        refine ⟨[], ?_⟩
        simp only [recvLoop, bufferFreeSize, bufferShrink, Nat.zero_add, if_neg hfull]
        exact ⟨⟨rfl, rfl, by simp, rfl, id, id⟩, .error rfl⟩
      | data b bs =>
        rw [recvLoop_data, if_neg hfull]
        split
        · obtain ⟨t, hm, he⟩ := ih (bufferUsed (bufferShrink buf) (b :: bs))
          refine ⟨b :: bs ++ t, ⟨hm.size, hm.pos, ?_, ?_, fun h => ?_, fun h => ?_⟩, he⟩
          · rw [hm.data]; simp
          · simp only [rcvqData, hm.socket, List.append_assoc]
          · simp [hm.eof h]
          · simp [hm.error h]
        · rename_i hgt
          refine ⟨(b :: bs).take (buf.size - buf.data.length), ⟨rfl, rfl, rfl, ?_, ?_, ?_⟩, .full ?_⟩
          · simp only [rcvqData_putBack, rcvqData]
            rw [← List.append_assoc, List.take_append_drop]
          · intro h
            simp [mem_putBack (by simp) h]
          · intro h
            simp [mem_putBack (by simp) h]
          · simp only [bufferUsed, bufferShrink, List.length_append, List.length_take]
            omega

theorem connRecv_spec (q : HttpReq) (rs : List RecvResult) :
    ∃ buf t, (connRecv q rs).2.1 = q.withIn buf (q.rx ++ t) ∧
      Moved q.inBuf rs buf (connRecv q rs).2.2 t ∧
      RecvEnd buf (connRecv q rs).2.2 (connRecv q rs).1 := by
  obtain ⟨t, hm, he⟩ := recvLoop_spec rs q.inBuf
  refine ⟨_, t, ?_, hm, he⟩
  simp only [connRecv, HttpReq.withIn, hm.data, List.drop_left]

/-! ## The recursion of the read handler -/

theorem httpReadBody_readOn {s s' : Reader} (h : httpReadBody s = (s', .readOn)) :
    s'.req.inBuf.data = [] ∧ s'.rcvq = s.rcvq ∧ s'.status = s.status := by
  unfold httpReadBody readBody at h
  simp only at h
  split at h
  · simp at h
  · rename_i q heq
    simp only [Prod.mk.injEq, and_true] at h
    subst h
    split at heq
    · simp at heq
    · rename_i hlt
      split at heq
      · simp only [Prod.mk.injEq, and_true] at heq
        subst heq
        simp [bufferSize]
      · rename_i hzero
        simp only [Prod.mk.injEq, and_true] at heq
        subst heq
        simp only [bufferSize] at hzero
        exact ⟨List.eq_nil_of_length_eq_zero (by simp only; omega), rfl, rfl⟩

theorem httpReadBody_verdict (s : Reader) :
    (httpReadBody s).2 = .done ∨ (httpReadBody s).2 = .readOn := by
  unfold httpReadBody
  rcases readBody s.req with ⟨q, b⟩
  cases b <;> simp

theorem headRead_readOn {s s' : Reader} (h : headRead s = (s', .readOn)) :
    s'.req.inBuf.data = [] ∧ s'.rcvq = s.rcvq ∧ s'.status = .readingBody := by
  have hget : ∀ {s s' : Reader}, httpGetBody s = (s', .readOn) →
      s'.req.inBuf.data = [] ∧ s'.rcvq = s.rcvq ∧ s'.status = .readingBody := by
    intro s s' h
    unfold httpGetBody at h
    split at h
    · simp at h
    · simp only at h
      split at h
      · simp at h
      · split at h
        · simp at h
        · exact httpReadBody_readOn h
  unfold headRead at h
  split at h
  · exact hget h
  · split at h
    · simp at h
    · exact hget h

theorem headRead_not_stuck (s : Reader) : (headRead s).2 ≠ .stuck := by
  have hget : (httpGetBody s).2 ≠ .stuck := by
    unfold httpGetBody
    split
    · simp
    · simp only
      split
      · simp
      · split
        · simp
        · rcases httpReadBody_verdict _ with h | h <;> rw [h] <;> simp
  unfold headRead
  split
  · exact hget
  · split
    · simp
    · exact hget

theorem finishHead_readOn {out : Reader × ReadStatus} {s : Reader}
    (h : finishHead out = (s, .readOn)) :
    s.req.inBuf.data = [] ∧ s.rcvq = out.1.rcvq ∧ s.status = .readingBody := by
  rcases out with ⟨s₀, st⟩
  cases st with
  | allDataRead => exact headRead_readOn h
  | moreDataExpected => simp [finishHead] at h
  | dataCorrupted => simp [finishHead] at h

theorem readHead_rcvq (s : Reader) : (readHead s).1.rcvq = s.rcvq := by
  unfold readHead
  simp only
  split <;> rfl

theorem recvDone_readOn {s s' : Reader} (h : recvDone s = (s', .readOn)) :
    s'.req.inBuf.data = [] ∧ s'.rcvq = s.rcvq ∧ s'.status = .readingBody := by
  by_cases hs : s.status = .readingFirstline ∨ s.status = .readingHeaders
  · rw [recvDone_head s hs] at h
    obtain ⟨h₁, h₂, h₃⟩ := finishHead_readOn h
    exact ⟨h₁, by rw [h₂, readHead_rcvq], h₃⟩
  · unfold recvDone at h
    split at h
    · simp_all
    · simp_all
    · rename_i hb
      obtain ⟨h₁, h₂, h₃⟩ := httpReadBody_readOn h
      exact ⟨h₁, h₂, by rw [h₃, hb]⟩
    · simp at h

theorem recvDone_not_stuck (s : Reader) : (recvDone s).2 ≠ .stuck := by
  by_cases hs : s.status = .readingFirstline ∨ s.status = .readingHeaders
  · rw [recvDone_head s hs]
    rcases readHead s with ⟨s₀, st⟩
    cases st with
    | allDataRead => exact headRead_not_stuck s₀
    | moreDataExpected => simp [finishHead]
    | dataCorrupted => simp [finishHead]
  · unfold recvDone
    split
    · simp_all
    · simp_all
    · rcases httpReadBody_verdict s with h | h <;> rw [h] <;> simp
    · simp

/-- One round of `conn_read_handler`: it ends, or goes on with an empty buffer. -/
theorem connReadN_round (armed : Bool) (n : Nat) (s : Reader) :
    (connReadN armed (n + 1) s).2 ≠ .stuck ∨
    ∃ s' t, connReadN armed (n + 1) s = connReadN armed n s' ∧ s'.req.inBuf.data = [] ∧
      rcvqData s.rcvq = t ++ rcvqData s'.rcvq ∧ s.req.inBuf.data ++ t ≠ [] := by
  obtain ⟨buf, t, hq, hm, he⟩ := connRecv_spec s.req s.rcvq
  rcases hr : connRecv s.req s.rcvq with ⟨ret, q, rcvq⟩
  rw [hr] at hq hm he
  simp only at hq hm he
  subst hq
  simp only [connReadN, hr, withIn_inBuf]
  split
  · exact .inl (by simp)
  · split
    · exact .inl (by simp)
    · split
      · exact .inl (by simp)
      · rename_i hagain _ heof
        split
        · rename_i s' hd
          cases armed with
          | false => exact .inl (by simp)
          | true =>
            obtain ⟨h₁, h₂, -⟩ := recvDone_readOn hd
            refine .inr ⟨s', t, by simp, h₁, by rw [h₂]; exact hm.socket, ?_⟩
            intro hnil
            have hzero : bufferSize buf = 0 := by rw [bufferSize, hm.data, hnil]; rfl
            cases he with
            | again => exact hagain ⟨rfl, hzero⟩
            | eof h => exact heof ⟨rfl, hzero⟩
            | error h => simp_all
            | full h => exact heof ⟨by rw [← bufferSize, hzero]; rfl, hzero⟩
        · exact .inl (recvDone_not_stuck _)

/-- `connRead` has fuel enough. -/
theorem connRead_fuel (armed : Bool) (s : Reader) : (connRead armed s).2 ≠ .stuck := by
  have hround : ∀ n (s : Reader), s.req.inBuf.data = [] → (rcvqData s.rcvq).length < n →
      (connReadN armed n s).2 ≠ .stuck := by
    intro n
    induction n with
    | zero => intro s _ h; omega
    | succ n ih =>
      intro s hbuf hlen
      rcases connReadN_round armed n s with h | ⟨s', t, h, hbuf', hsock, hne⟩
      · exact h
      · rw [h]
        refine ih s' hbuf' ?_
        have := congrArg List.length hsock
        have ht : t.length ≠ 0 := by
          intro h0
          rw [hbuf, List.eq_nil_of_length_eq_zero h0] at hne; exact hne rfl
        rw [List.length_append] at this; omega
  unfold connRead
  rcases connReadN_round armed ((rcvqData s.rcvq).length + 1) s with
    h | ⟨s', t, h, hbuf', hsock, -⟩
  · exact h
  · rw [h]
    refine hround _ s' hbuf' ?_
    have := congrArg List.length hsock
    rw [List.length_append] at this; omega

/-! ## What reading leaves alone -/

/-- The fields of a request that reading does not change. -/
structure Kept (q q' : HttpReq) : Prop where
  live : q'.live = q.live
  hc : q'.hc = q.hc
  cb : q'.cb = q.cb
  kind : q'.kind = q.kind
  userdone : q'.userdone = q.userdone
  outBuf : q'.outBuf = q.outBuf
  outputBody : q'.outputBody = q.outputBody
  outputHeaders : q'.outputHeaders = q.outputHeaders

theorem Kept.refl (q : HttpReq) : Kept q q := ⟨rfl, rfl, rfl, rfl, rfl, rfl, rfl, rfl⟩

theorem Kept.trans {a b c : HttpReq} (h : Kept a b) (h' : Kept b c) : Kept a c :=
  ⟨h'.live.trans h.live, h'.hc.trans h.hc, h'.cb.trans h.cb, h'.kind.trans h.kind,
    h'.userdone.trans h.userdone, h'.outBuf.trans h.outBuf, h'.outputBody.trans h.outputBody,
    h'.outputHeaders.trans h.outputHeaders⟩

theorem kept_withIn (q : HttpReq) (buf : Buffer) (rx : Bytes) : Kept q (q.withIn buf rx) :=
  ⟨rfl, rfl, rfl, rfl, rfl, rfl, rfl, rfl⟩

theorem kept_parseFirstline (q : HttpReq) (line : Bytes) : Kept q (parseFirstline q line).1 := by
  simp only [parseFirstline, httpParseRequestLine, httpParseResponseLine]
  repeat' split
  all_goals exact ⟨rfl, rfl, rfl, rfl, rfl, rfl, rfl, rfl⟩

/-- A header line changes the header table only. -/
theorem parseHeaderLine_table {q q' : HttpReq} {line : Bytes}
    (h : parseHeaderLine q line = .go q') : ∃ hs, q' = { q with inputHeaders := hs } := by
  unfold parseHeaderLine at h
  split at h
  · cases h
  · split at h
    · split at h
      · rename_i q₁ hq₁
        cases h
        unfold httpAppendToLastInputHeader at hq₁
        split at hq₁
        · cases hq₁
        · split at hq₁
          · cases hq₁
          · simp only [Option.some.injEq] at hq₁
            exact ⟨_, hq₁.symm⟩
      · cases h
    · split at h
      · cases h
      · split at h
        · rename_i q₁ hq₁
          cases h
          simp only [httpAddInputHeader, Option.map_eq_some_iff] at hq₁
          obtain ⟨hs, -, rfl⟩ := hq₁
          exact ⟨hs, rfl⟩
        · cases h

theorem kept_parseHeaderLine {q q' : HttpReq} {line : Bytes}
    (h : parseHeaderLine q line = .go q') : Kept q q' := by
  obtain ⟨hs, rfl⟩ := parseHeaderLine_table h
  exact ⟨rfl, rfl, rfl, rfl, rfl, rfl, rfl, rfl⟩

/-- The request a step of the head machine leaves. -/
def headReq : HeadState ⊕ HeadEnd → HttpReq
  | .inl s => s.req
  | .inr (.accepted q) => q
  | .inr (.rejected _ q) => q

theorem kept_headerLine (s : HeadState) (line : Bytes) :
    Kept s.req (headReq (match parseHeaderLine s.req (cstr line) with
      | .go q => .inl ⟨.readingHeaders, q⟩
      | .done => .inr (.accepted s.req)
      | .bad => .inr (.rejected .readingHeaders s.req))) := by
  split
  · rename_i q hq
    exact kept_parseHeaderLine hq
  · exact Kept.refl _
  · exact Kept.refl _

theorem kept_headAct (s : HeadState) (line : Bytes) : Kept s.req (headReq (headAct s line)) := by
  unfold headAct
  split
  · have := kept_parseFirstline s.req line
    rcases hp : parseFirstline s.req line with ⟨q, b⟩
    rw [hp] at this
    cases b <;> exact this
  · exact kept_headerLine s line

theorem kept_feedHead (st : ConnStatus) (q : HttpReq) (d : Bytes) :
    Kept q (match feedHead st q d with
      | .more st' _ => st'.req
      | .stop (.accepted q') _ => q'
      | .stop (.rejected _ q') _ => q') := by
  refine feed_induction isEol headAct (P := fun s d => Kept s.req
    (match feed isEol headAct s d with
      | .more st' _ => st'.req
      | .stop (.accepted q') _ => q'
      | .stop (.rejected _ q') _ => q')) ?_ ?_ ?_ ⟨st, q⟩ d
  · intro s d h
    rw [feed_none isEol headAct h]; exact Kept.refl _
  · intro s d l r t h ha
    have hk := kept_headAct s l
    rw [ha] at hk
    rw [feed_stop isEol headAct h ha]
    cases t <;> exact hk
  · intro s d l r s' h ha ih
    have hk := kept_headAct s l
    rw [ha] at hk
    rw [feed_next isEol headAct h ha]
    exact hk.trans ih

theorem kept_readHead (s : Reader) : Kept s.req (readHead s).1.req := by
  have hk := kept_feedHead s.status s.req s.req.inBuf.data
  unfold readHead
  simp only
  split <;> rename_i h <;> rw [h] at hk <;> exact hk.trans (kept_withIn _ _ _)

theorem kept_readBody (q : HttpReq) : Kept q (readBody q).1 := by
  simp only [readBody]
  repeat' split
  all_goals exact ⟨rfl, rfl, rfl, rfl, rfl, rfl, rfl, rfl⟩

theorem kept_httpReadBody (s : Reader) : Kept s.req (httpReadBody s).1.req := by
  have hk := kept_readBody s.req
  unfold httpReadBody
  split <;> rename_i h <;> rw [h] at hk <;> exact hk

theorem kept_headRead (s : Reader) : Kept s.req (headRead s).1.req := by
  have hget : Kept s.req (httpGetBody s).1.req := by
    unfold httpGetBody
    split
    · exact Kept.refl _
    · simp only
      split
      · exact Kept.refl _
      · split
        · exact Kept.refl _
        · rename_i n _
          refine Kept.trans ?_ (kept_httpReadBody _)
          exact ⟨rfl, rfl, rfl, rfl, rfl, rfl, rfl, rfl⟩
  unfold headRead
  split
  · exact hget
  · split
    · exact Kept.refl _
    · exact hget

theorem kept_recvDone (s : Reader) : Kept s.req (recvDone s).1.req := by
  by_cases hs : s.status = .readingFirstline ∨ s.status = .readingHeaders
  · rw [recvDone_head s hs]
    have hk := kept_readHead s
    rcases hr : readHead s with ⟨s', st⟩
    rw [hr] at hk
    cases st with
    | allDataRead => exact hk.trans (kept_headRead s')
    | moreDataExpected => exact hk
    | dataCorrupted => exact hk
  · unfold recvDone
    split
    · simp_all
    · simp_all
    · exact kept_httpReadBody s
    · exact Kept.refl _

theorem kept_connReadN (armed : Bool) (n : Nat) (s : Reader) :
    Kept s.req (connReadN armed n s).1.req := by
  induction n generalizing s with
  | zero => exact Kept.refl _
  | succ n ih =>
    obtain ⟨buf, t, hq, -, -⟩ := connRecv_spec s.req s.rcvq
    have hrecv : Kept s.req (connRecv s.req s.rcvq).2.1 := by
      rw [hq]; exact kept_withIn _ _ _
    have hdone := kept_recvDone
      { s with req := (connRecv s.req s.rcvq).2.1, rcvq := (connRecv s.req s.rcvq).2.2 }
    simp only [connReadN]
    split
    · exact hrecv
    · split
      · exact hrecv
      · split
        · exact hrecv
        · split
          · rename_i s' hd
            rw [hd] at hdone
            have hk := hrecv.trans hdone
            split
            · exact hk.trans (ih s')
            · exact hk
          · exact hrecv.trans hdone

theorem kept_connRead (armed : Bool) (s : Reader) : Kept s.req (connRead armed s).1.req :=
  kept_connReadN armed _ s

end Http
end Shs
