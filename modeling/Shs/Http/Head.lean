import Shs.Http.Read

/-!
# Http.Head

The message head as a line machine. `headAct` says what one line of the head does, and
`readHead` runs it on the input buffer; `recvDone_head` shows that `http_read_firstline` and
`http_read_header` are this machine followed by `headRead`.
-/

namespace Shs
namespace Http

open LineStream

/-- Where the head is: `status` is `readingFirstline` before the first line, and `readingHeaders`
behind it. -/
structure HeadState where
  status : ConnStatus
  req : HttpReq
  deriving DecidableEq, Repr

inductive HeadEnd where
  | accepted (q : HttpReq)
  | rejected (status : ConnStatus) (q : HttpReq)
  deriving DecidableEq, Repr

/-- One line of the head. -/
def headAct (s : HeadState) (line : Bytes) : HeadState ⊕ HeadEnd :=
  match s.status with
  | .readingFirstline =>
    match parseFirstline s.req line with
    | (q, true) => .inl ⟨.readingHeaders, q⟩
    | (q, false) => .inr (.rejected .readingFirstline q)
  | _ =>
    match parseHeaderLine s.req (cstr line) with
    | .go q => .inl ⟨.readingHeaders, q⟩
    | .done => .inr (.accepted s.req)
    | .bad => .inr (.rejected .readingHeaders s.req)

abbrev HeadOut := Out UInt8 HeadState HeadEnd

/-- The head machine on the bytes `d`, from the status and request of a connection. -/
def feedHead (status : ConnStatus) (q : HttpReq) (d : Bytes) : HeadOut :=
  feed isEol headAct ⟨status, q⟩ d

/-- The request with another input buffer, and another record of the bytes received. -/
def HttpReq.withIn (buf : Buffer) (rx : Bytes) (q : HttpReq) : HttpReq :=
  { q with inBuf := buf, rx := rx }

/-- The buffer when only `rest` is left of its bytes. -/
def Buffer.readTo (buf : Buffer) (rest : Bytes) : Buffer :=
  bufferPull buf (buf.data.length - rest.length)

/-- The head machine on the input buffer, up to the call of `headRead`. -/
def readHead (s : Reader) : Reader × ReadStatus :=
  let buf := s.req.inBuf
  match feedHead s.status s.req buf.data with
  | .more st rest =>
    ({ s with req := st.req.withIn (Buffer.readTo buf rest) s.req.rx, status := st.status },
      .moreDataExpected)
  | .stop (.accepted q) rest =>
    ({ s with req := q.withIn (Buffer.readTo buf rest) s.req.rx, status := .readingHeaders },
      .allDataRead)
  | .stop (.rejected st q) rest =>
    ({ s with req := q.withIn (Buffer.readTo buf rest) s.req.rx, status := st }, .dataCorrupted)

/-- What `http_read_firstline` and `http_read_header` do behind the head. -/
def finishHead (out : Reader × ReadStatus) : Reader × Verdict :=
  match out with
  | (s, .dataCorrupted) => (s, .fail .invalidHeader)
  | (s, .moreDataExpected) => (s, .wait)
  | (s, .allDataRead) => headRead s

/-! ## The parsers do not look at the input buffer -/

@[simp] theorem withIn_inBuf (buf : Buffer) (rx : Bytes) (q : HttpReq) :
    (q.withIn buf rx).inBuf = buf := rfl
@[simp] theorem withIn_rx (buf : Buffer) (rx : Bytes) (q : HttpReq) : (q.withIn buf rx).rx = rx := rfl
@[simp] theorem withIn_kind (buf : Buffer) (rx : Bytes) (q : HttpReq) :
    (q.withIn buf rx).kind = q.kind := rfl
@[simp] theorem withIn_withIn (b b' : Buffer) (rx rx' : Bytes) (q : HttpReq) :
    (q.withIn b rx).withIn b' rx' = q.withIn b' rx' := rfl
@[simp] theorem withIn_self (q : HttpReq) : q.withIn q.inBuf q.rx = q := rfl

theorem parseFirstline_withIn (buf : Buffer) (rx line : Bytes) (q : HttpReq) :
    parseFirstline (q.withIn buf rx) line =
      ((parseFirstline q line).1.withIn buf rx, (parseFirstline q line).2) := by
  unfold parseFirstline HttpReq.withIn
  cases hk : q.kind with
  | request =>
    simp only [httpParseRequestLine]
    repeat' split
    all_goals simp_all
  | response =>
    simp only [httpParseResponseLine]
    repeat' split
    all_goals simp_all

def LineResult.withIn (buf : Buffer) (rx : Bytes) : LineResult → LineResult
  | .go q => .go (q.withIn buf rx)
  | .done => .done
  | .bad => .bad

theorem parseHeaderLine_withIn (buf : Buffer) (rx line : Bytes) (q : HttpReq) :
    parseHeaderLine (q.withIn buf rx) line = (parseHeaderLine q line).withIn buf rx := by
  have happ : httpAppendToLastInputHeader (q.withIn buf rx) line =
      (httpAppendToLastInputHeader q line).map (HttpReq.withIn buf rx) := by
    unfold httpAppendToLastInputHeader HttpReq.withIn
    cases hh : q.inputHeaders with
    | nil => simp
    | cons h0 hs =>
      simp only
      split <;> simp
  have hadd : ∀ k v, httpAddInputHeader (q.withIn buf rx) k v =
      (httpAddInputHeader q k v).map (HttpReq.withIn buf rx) := by
    intro k v
    simp only [httpAddInputHeader, Option.map_map]
    rfl
  unfold parseHeaderLine
  cases line with
  | nil => rfl
  | cons c cs =>
    simp only [happ, hadd]
    split
    · cases httpAppendToLastInputHeader q (c :: cs) <;> rfl
    · split
      · rfl
      · rename_i skey svalue _
        cases httpAddInputHeader q skey (svalue.dropWhile (· == SP)) <;> rfl

def HeadState.withIn (buf : Buffer) (rx : Bytes) (s : HeadState) : HeadState :=
  { s with req := s.req.withIn buf rx }

def HeadEnd.withIn (buf : Buffer) (rx : Bytes) : HeadEnd → HeadEnd
  | .accepted q => .accepted (q.withIn buf rx)
  | .rejected st q => .rejected st (q.withIn buf rx)

theorem headAct_withIn (buf : Buffer) (rx : Bytes) (s : HeadState) (line : Bytes) :
    headAct (s.withIn buf rx) line =
      (headAct s line).map (HeadState.withIn buf rx) (HeadEnd.withIn buf rx) := by
  have hhead : ∀ q : HttpReq,
      (match parseHeaderLine (q.withIn buf rx) (cstr line) with
        | .go q => Sum.inl ⟨.readingHeaders, q⟩
        | .done => Sum.inr (HeadEnd.accepted (q.withIn buf rx))
        | .bad => Sum.inr (HeadEnd.rejected .readingHeaders (q.withIn buf rx))) =
      Sum.map (HeadState.withIn buf rx) (HeadEnd.withIn buf rx)
        (match parseHeaderLine q (cstr line) with
          | .go q => Sum.inl ⟨.readingHeaders, q⟩
          | .done => Sum.inr (HeadEnd.accepted q)
          | .bad => Sum.inr (HeadEnd.rejected .readingHeaders q)) := by
    intro q
    rw [parseHeaderLine_withIn]
    cases parseHeaderLine q (cstr line) <;> rfl
  obtain ⟨st, q⟩ := s
  cases st with
  | readingFirstline =>
    simp only [headAct, HeadState.withIn, parseFirstline_withIn]
    rcases parseFirstline q line with ⟨q', b⟩
    cases b <;> rfl
  | _ => exact hhead q

theorem feedHead_withIn (st : ConnStatus) (q : HttpReq) (buf : Buffer) (rx d : Bytes) :
    feedHead st (q.withIn buf rx) d =
      (feedHead st q d).map (HeadState.withIn buf rx) (HeadEnd.withIn buf rx) :=
  feed_map isEol headAct (headAct_withIn buf rx) ⟨st, q⟩ d

/-- An empty line behind the first line always ends the head. -/
theorem headAct_empty (s : HeadState) (line : Bytes) (s' : HeadState)
    (h : headAct s line = .inl s') : ∃ t, headAct s' [] = .inr t := by
  have hs : s'.status = .readingHeaders := by
    unfold headAct at h
    repeat' split at h
    all_goals cases h
    all_goals rfl
  refine ⟨.accepted s'.req, ?_⟩
  simp [headAct, hs, cstr, parseHeaderLine]

/-! ## The reading functions are the head machine -/

/-- Where a run of the machine on the buffer of `q` leaves a request, and its result. -/
def headResult (q : HttpReq) : HeadOut → HttpReq × ReadStatus
  | .more st rest => (st.req.withIn (Buffer.readTo q.inBuf rest) q.rx, .moreDataExpected)
  | .stop (.accepted q') rest => (q'.withIn (Buffer.readTo q.inBuf rest) q.rx, .allDataRead)
  | .stop (.rejected _ q') rest => (q'.withIn (Buffer.readTo q.inBuf rest) q.rx, .dataCorrupted)

theorem readTo_all (buf : Buffer) : Buffer.readTo buf buf.data = buf := by
  simp [Buffer.readTo, bufferPull]

theorem readTo_data {buf : Buffer} {rest : Bytes} (h : rest <:+ buf.data) :
    (Buffer.readTo buf rest).data = rest := by
  rw [Buffer.readTo, bufferPull_data, ← List.suffix_iff_eq_drop.mp h]

theorem readTo_readTo {buf : Buffer} {r r' : Bytes} (h : r <:+ buf.data) (h' : r' <:+ r) :
    Buffer.readTo (Buffer.readTo buf r) r' = Buffer.readTo buf r' := by
  have hl := h.length_le
  have hl' := h'.length_le
  have hd := readTo_data h
  unfold Buffer.readTo at hd ⊢
  simp only [bufferPull] at hd ⊢
  rw [hd, Buffer.mk.injEq]
  refine ⟨rfl, by omega, ?_⟩
  rw [← List.suffix_iff_eq_drop.mp h', ← List.suffix_iff_eq_drop.mp (h'.trans h)]

theorem bufferReadline_eq (q : HttpReq) :
    bufferReadline q = (takeLine isEol q.inBuf.data).map fun p =>
      (p.1, q.withIn (Buffer.readTo q.inBuf p.2) q.rx) := by
  unfold bufferReadline
  cases takeLine isEol q.inBuf.data with
  | none => rfl
  | some p => rfl

theorem feedHead_rest_suffix (st : ConnStatus) (q : HttpReq) (d : Bytes) :
    (feedHead st q d).rest <:+ d := feed_rest_suffix isEol headAct _ _

theorem headResult_withIn {q q' : HttpReq} {rest : Bytes} (h : rest <:+ q.inBuf.data)
    (o : HeadOut) (ho : o.rest <:+ rest) :
    headResult (q'.withIn (Buffer.readTo q.inBuf rest) q.rx)
        (o.map (HeadState.withIn (Buffer.readTo q.inBuf rest) q.rx)
          (HeadEnd.withIn (Buffer.readTo q.inBuf rest) q.rx)) = headResult q o := by
  cases o with
  | more st r =>
    have hr : r <:+ rest := ho
    simp only [headResult, Out.map, HeadState.withIn, withIn_inBuf, withIn_withIn, withIn_rx,
      readTo_readTo h hr]
  | stop t r =>
    have hr : r <:+ rest := ho
    cases t <;>
      simp only [headResult, Out.map, HeadEnd.withIn, withIn_inBuf, withIn_withIn, withIn_rx,
        readTo_readTo h hr]

theorem httpParseHeaders_feed (q : HttpReq) :
    httpParseHeaders q = headResult q (feedHead .readingHeaders q q.inBuf.data) := by
  have key : ∀ n (q : HttpReq), q.inBuf.data.length ≤ n →
      parseHeadersN n q = headResult q (feedHead .readingHeaders q q.inBuf.data) := by
    intro n
    induction n with
    | zero =>
      intro q hn
      have hd : q.inBuf.data = [] := List.eq_nil_of_length_eq_zero (by omega)
      have hr := readTo_all q.inBuf
      rw [hd] at hr ⊢
      rw [feedHead, feed_none isEol headAct (by simp [takeLine])]
      simp [parseHeadersN, headResult, hr]
    | succ n ih =>
      intro q hn
      simp only [parseHeadersN, bufferReadline_eq]
      cases hl : takeLine isEol q.inBuf.data with
      | none =>
        rw [feedHead, feed_none isEol headAct hl]
        simp [headResult, readTo_all]
      | some p =>
        obtain ⟨line, rest⟩ := p
        have hsuf := takeLine_suffix isEol hl
        have hlen := takeLine_length isEol hl
        simp only [Option.map_some, parseHeaderLine_withIn]
        have hact : headAct ⟨.readingHeaders, q⟩ line =
            match parseHeaderLine q (cstr line) with
            | .go q => .inl ⟨.readingHeaders, q⟩
            | .done => .inr (.accepted q)
            | .bad => .inr (.rejected .readingHeaders q) := rfl
        cases hp : parseHeaderLine q (cstr line) with
        | go q' =>
          rw [hp] at hact
          simp only [LineResult.withIn]
          rw [ih _ (by rw [withIn_inBuf, readTo_data hsuf]; omega), withIn_inBuf,
            readTo_data hsuf, feedHead_withIn,
            headResult_withIn hsuf _ (feedHead_rest_suffix _ _ _)]
          rw [feedHead, feedHead, feed_next isEol headAct hl hact]
        | done =>
          rw [hp] at hact
          rw [feedHead, feed_stop isEol headAct hl hact]
          rfl
        | bad =>
          rw [hp] at hact
          rw [feedHead, feed_stop isEol headAct hl hact]
          rfl
  exact key _ q (Nat.le_refl _)

/-- The status behind the first line does not change. -/
theorem feedHead_headers_status {q : HttpReq} {d : Bytes} :
    match feedHead .readingHeaders q d with
    | .more st _ => st.status = .readingHeaders
    | .stop (.accepted _) _ => True
    | .stop (.rejected st _) _ => st = .readingHeaders := by
  refine feed_induction isEol headAct (P := fun s d => s.status = .readingHeaders →
    match feed isEol headAct s d with
    | .more st _ => st.status = .readingHeaders
    | .stop (.accepted _) _ => True
    | .stop (.rejected st _) _ => st = .readingHeaders) ?_ ?_ ?_ ⟨.readingHeaders, q⟩ d rfl
  · intro s d h hs
    rw [feed_none isEol headAct h]; exact hs
  · intro s d l r t h ha hs
    rw [feed_stop isEol headAct h ha]
    simp only [headAct, hs] at ha
    split at ha
    · cases ha
    · cases ha; trivial
    · cases ha; rfl
  · intro s d l r s' h ha ih hs
    rw [feed_next isEol headAct h ha]
    refine ih ?_
    simp only [headAct, hs] at ha
    split at ha
    · cases ha; rfl
    · cases ha
    · cases ha

theorem httpReadHeader_head (s : Reader) (hs : s.status = .readingHeaders) :
    httpReadHeader s = finishHead (readHead s) := by
  obtain ⟨q, st, rcvq⟩ := s
  cases hs
  have hst := @feedHead_headers_status q q.inBuf.data
  unfold httpReadHeader readHead
  rw [httpParseHeaders_feed]
  cases ho : feedHead .readingHeaders q q.inBuf.data with
  | more st rest =>
    rw [ho] at hst
    simp only [ho, headResult, finishHead, hst]
  | stop t rest =>
    cases t with
    | accepted q' => simp only [ho, headResult, finishHead]
    | rejected st q' =>
      rw [ho] at hst
      simp only [ho, headResult, finishHead, hst]

/-- **The reading functions are the head machine.** -/
theorem recvDone_head (s : Reader)
    (hs : s.status = .readingFirstline ∨ s.status = .readingHeaders) :
    recvDone s = finishHead (readHead s) := by
  obtain ⟨q, st, rcvq⟩ := s
  rcases hs with hs | hs <;> cases hs
  · simp only [recvDone, httpReadFirstline, httpParseFirstline, bufferReadline_eq]
    cases hl : takeLine isEol q.inBuf.data with
    | none =>
      unfold readHead
      simp only [feedHead, feed_none isEol headAct hl]
      simp [finishHead, readTo_all]
    | some p =>
      obtain ⟨line, rest⟩ := p
      have hsuf := takeLine_suffix isEol hl
      simp only [Option.map_some, parseFirstline_withIn]
      have hact : headAct ⟨.readingFirstline, q⟩ line =
          match parseFirstline q line with
          | (q, true) => .inl ⟨.readingHeaders, q⟩
          | (q, false) => .inr (.rejected .readingFirstline q) := rfl
      rcases hp : parseFirstline q line with ⟨q', b⟩
      rw [hp] at hact
      cases b with
      | false =>
        unfold readHead
        simp only [feedHead, feed_stop isEol headAct hl hact, finishHead]
      | true =>
        dsimp only
        rw [httpReadHeader_head _ rfl]
        congr 1
        unfold readHead
        simp only [withIn_inBuf, withIn_rx, readTo_data hsuf, feedHead_withIn]
        have hnext : feedHead .readingFirstline q q.inBuf.data =
            feedHead .readingHeaders q' rest := feed_next isEol headAct hl hact
        rw [hnext]
        have hr := feedHead_rest_suffix .readingHeaders q' rest
        cases ho : feedHead .readingHeaders q' rest with
        | more st r =>
          have hr : r <:+ rest := by rw [ho] at hr; exact hr
          simp only [Out.map, HeadState.withIn, withIn_withIn, readTo_readTo hsuf hr]
        | stop t r =>
          have hr : r <:+ rest := by rw [ho] at hr; exact hr
          cases t <;> simp only [Out.map, HeadEnd.withIn, withIn_withIn, readTo_readTo hsuf hr]
  · exact httpReadHeader_head _ rfl

end Http
end Shs
