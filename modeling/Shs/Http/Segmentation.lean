import Shs.Http.Receive

/-!
# Http.Segmentation

How the way a stream is cut into read events changes what is read of the message head.
`headRun` delivers the chunks of a stream one read event at a time, and `headRun_feedChunks`
shows that the size of the input buffer does not matter when the head fits. So the result is that
of `LineStream.feedChunks`: it depends on the cuts exactly when the head has a two-byte line end.
-/

namespace Shs
namespace Http

open LineStream

/-- A request that has received nothing yet. -/
def HttpReq.fresh (q : HttpReq) : HttpReq := q.withIn (bufferCreate CONN_DEFAULT_RCVBUF) []

/-- One read event, with the bytes `chunk`, while the head is read. -/
def headEvent (out : Reader × ReadStatus) (chunk : Bytes) : Reader × ReadStatus :=
  match out with
  | (s, .moreDataExpected) =>
    let (_, q, rcvq) := connRecv s.req (s.rcvq ++ dataOf chunk)
    let s := { s with req := q, rcvq := rcvq }
    if bufferSize q.inBuf = 0 then (s, .moreDataExpected) else readHead s
  | out => out

/-- What is known when the head has been read: the result, what the first line says, the headers
and how many bytes were taken. -/
structure HeadOutcome where
  status : ReadStatus
  type : ReqType
  responseCode : Int
  uri : Bytes
  major : Nat
  minor : Nat
  inputHeaders : List Header
  consumed : Nat
  deriving DecidableEq, Repr

def HttpReq.outcome (q : HttpReq) (status : ReadStatus) (consumed : Nat) : HeadOutcome :=
  ⟨status, q.type, q.responseCode, q.uri, q.major, q.minor, q.inputHeaders, consumed⟩

/-- A fresh request `q` read from a stream that arrives in the chunks `cs`. -/
def headRun (q : HttpReq) (cs : List Bytes) : Reader × ReadStatus :=
  cs.foldl headEvent (⟨q.fresh, .readingFirstline, []⟩, .moreDataExpected)

def headOutcome (q : HttpReq) (cs : List Bytes) : HeadOutcome :=
  let (s, status) := headRun q cs
  s.req.outcome status (s.req.rx.length - s.req.inBuf.data.length)

/-! ## One read event -/

/-- `headEvent` is what `conn_read_handler` does with a read event while it reads the head. -/
theorem connReadN_headEvent (armed : Bool) (n : Nat) (s : Reader) (b : Bytes)
    (hs : s.status = .readingFirstline ∨ s.status = .readingHeaders) (hq : s.rcvq = [])
    (hroom : s.req.inBuf.data.length ≤ s.req.inBuf.size) (hsize : 0 < s.req.inBuf.size) :
    connReadN armed (n + 1) { s with rcvq := dataOf b } =
      match headEvent (s, .moreDataExpected) b with
      | (s, .moreDataExpected) => (s, .wait)
      | (s, .dataCorrupted) => (s, .fail .invalidHeader)
      | (s, .allDataRead) =>
        match headRead s with
        | (s, .readOn) => if armed then connReadN armed n s else (s, .wait)
        | out => out := by
  have hret : (connRecv s.req (dataOf b)).1 =
      if (s.req.inBuf.data ++ b).length < s.req.inBuf.size then SHS_AGAIN
      else s.req.inBuf.size := by
    unfold connRecv
    rw [recvLoop_dataOf _ _ hroom]
  have hrecv := connRecv_dataOf s.req b hroom
  have hsplit : connRecv s.req (dataOf b) =
      ((connRecv s.req (dataOf b)).1, (connRecv s.req (dataOf b)).2.1,
        (connRecv s.req (dataOf b)).2.2) := rfl
  rw [hret, hrecv] at hsplit
  simp only [connReadN, headEvent, hq, List.nil_append, hsplit, withIn_inBuf, bufferSize]
  have hempty : ((s.req.inBuf.data ++ b).take s.req.inBuf.size).length = 0 ↔
      (s.req.inBuf.data ++ b).length = 0 := by
    simp only [List.length_take]; omega
  by_cases hzero : (s.req.inBuf.data ++ b).length = 0
  · rw [if_pos ⟨if_pos (by omega), hempty.mpr hzero⟩, if_pos (hempty.mpr hzero)]
  · have hne := fun h => hzero (hempty.mp h)
    rw [if_neg (fun h => hne h.2), if_neg, if_neg (fun h => hne h.2), if_neg hne,
      recvDone_head _ (by exact hs)]
    · rcases readHead _ with ⟨s', st⟩
      cases st with
      | allDataRead =>
        rcases hr : headRead s' with ⟨s'', v⟩
        cases v <;> simp only [finishHead, hr]
      | moreDataExpected => rfl
      | dataCorrupted => rfl
    · split
      · decide
      · simp only [SHS_ERROR]; omega

/-! ## The head machine on whole streams -/

def HeadEnd.req : HeadEnd → HttpReq
  | .accepted q => q
  | .rejected _ q => q

def HeadEnd.readStatus : HeadEnd → ReadStatus
  | .accepted _ => .allDataRead
  | .rejected _ _ => .dataCorrupted

/-- How a run of the head machine on a stream of `n` bytes is seen. -/
def headView (n : Nat) : HeadOut → HeadOutcome
  | .more st rest => st.req.outcome .moreDataExpected (n - rest.length)
  | .stop t rest => t.req.outcome t.readStatus (n - rest.length)

/-- The stream `d` of request `q` has a head that fits into the input buffer. -/
def HeadFits (q : HttpReq) (d : Bytes) : Prop :=
  headSize isEol headAct ⟨.readingFirstline, q.fresh⟩ d ≤ CONN_DEFAULT_RCVBUF

/-- What the reader holds after the chunks `cs`, compared with the line machine. -/
def Follows (cs : List Bytes) (out : Reader × ReadStatus) : HeadOut → Prop
  | .more st rest =>
    out.2 = .moreDataExpected ∧ out.1.rcvq = [] ∧ out.1.status = st.status ∧
      ∃ pos, out.1.req = st.req.withIn ⟨CONN_DEFAULT_RCVBUF, pos, rest⟩ cs.flatten
  | .stop t rest =>
    out.2 = t.readStatus ∧ ∃ (buf : Buffer) (rx : Bytes), out.1.req = t.req.withIn buf rx ∧
      rx.length - buf.data.length = cs.flatten.length - rest.length

theorem Follows.view {cs : List Bytes} {out : Reader × ReadStatus} {o : HeadOut}
    (h : Follows cs out o) :
    out.1.req.outcome out.2 (out.1.req.rx.length - out.1.req.inBuf.data.length) =
      headView cs.flatten.length o := by
  cases o with
  | more st rest =>
    obtain ⟨hst, -, -, pos, hreq⟩ := h
    rw [hst, hreq]; rfl
  | stop t rest =>
    obtain ⟨hst, buf, rx, hreq, hlen⟩ := h
    rw [hst, hreq]
    simp only [withIn_rx, withIn_inBuf, hlen]; rfl

/-- One read event. The buffer may cut off bytes of the chunk, but then the head ends before. -/
theorem headEvent_follows {cs : List Bytes} {out : Reader × ReadStatus} {o : HeadOut} {b : Bytes}
    (h : Follows cs out o)
    (hfit : ∀ st rest, o = .more st rest →
      rest.length ≤ CONN_DEFAULT_RCVBUF ∧
        headSize isEol headAct st (rest ++ b) ≤ CONN_DEFAULT_RCVBUF) :
    Follows (cs ++ [b]) (headEvent out b) (deliver isEol headAct o b) := by
  cases o with
  | stop t rest =>
    obtain ⟨hst, buf, rx, hreq, hlen⟩ := h
    have hev : headEvent out b = out := by
      obtain ⟨s, st⟩ := out
      cases t <;> (simp only [HeadEnd.readStatus] at hst; subst hst; rfl)
    rw [hev]
    refine ⟨hst, buf, rx, hreq, ?_⟩
    simp only [List.flatten_append, List.flatten_cons, List.flatten_nil, List.append_nil,
      List.length_append]
    omega
  | more st rest =>
    obtain ⟨hst, hq, hstat, pos, hreq⟩ := h
    obtain ⟨hroom, hsize⟩ := hfit st rest rfl
    obtain ⟨⟨q, status, rcvq⟩, rs⟩ := out
    simp only at hst hq hstat hreq
    subst hst hq hstat hreq
    have hrecv := connRecv_dataOf (st.req.withIn ⟨CONN_DEFAULT_RCVBUF, pos, rest⟩ cs.flatten) b
      hroom
    simp only [withIn_inBuf, withIn_withIn, withIn_rx] at hrecv
    simp only [headEvent, List.nil_append, hrecv, withIn_inBuf, bufferSize]
    have hcap : 0 < CONN_DEFAULT_RCVBUF := by decide
    by_cases hzero : ((rest ++ b).take CONN_DEFAULT_RCVBUF).length = 0
    · have hnil : rest = [] ∧ b = [] := by
        simp only [List.length_take, List.length_append] at hzero
        exact ⟨List.eq_nil_of_length_eq_zero (by omega), List.eq_nil_of_length_eq_zero (by omega)⟩
      obtain ⟨rfl, rfl⟩ := hnil
      simp only [deliver, List.append_nil, List.take_nil, List.drop_nil, List.length_nil, if_true]
      rw [feed_none isEol headAct (by simp [takeLine])]
      exact ⟨rfl, rfl, rfl, 0, by simp⟩
    · rw [if_neg hzero]
      have hfeed : ∀ buf rx d, feedHead st.status (st.req.withIn buf rx) d =
          (feed isEol headAct st d).map (HeadState.withIn buf rx) (HeadEnd.withIn buf rx) :=
        fun buf rx d => feedHead_withIn st.status st.req buf rx d
      have hsuf := feed_rest_suffix isEol headAct st ((rest ++ b).take CONN_DEFAULT_RCVBUF)
      simp only [readHead, withIn_inBuf, withIn_rx, hfeed, deliver]
      cases ho : feed isEol headAct st (rest ++ b) with
      | more st' r =>
        have hlen : (rest ++ b).length ≤ CONN_DEFAULT_RCVBUF := by
          simpa only [headSize, ho] using hsize
        have hb : b.length ≤ CONN_DEFAULT_RCVBUF - rest.length := by
          simp only [List.length_append] at hlen; omega
        have hr : r <:+ rest ++ b := by
          rw [List.take_of_length_le hlen, ho] at hsuf; exact hsuf
        simp only [List.take_of_length_le hlen, ho, Out.map, HeadState.withIn, withIn_withIn,
          List.drop_of_length_le hlen, List.take_of_length_le hb]
        refine ⟨rfl, rfl, rfl, (rest ++ b).length - r.length, ?_⟩
        simp only [List.flatten_append, List.flatten_cons, List.flatten_nil, List.append_nil,
          Buffer.readTo, bufferPull, Nat.zero_add]
        rw [← List.suffix_iff_eq_drop.mp hr]
      | stop t r =>
        have hlen : (rest ++ b).length - r.length ≤ CONN_DEFAULT_RCVBUF := by
          simpa only [headSize, ho] using hsize
        have hr := feed_stop_length isEol headAct ho
        have hstop := feed_take_stop isEol headAct ho hlen
        rw [hstop] at hsuf ⊢
        have hdata := @readTo_data ⟨CONN_DEFAULT_RCVBUF, 0, (rest ++ b).take CONN_DEFAULT_RCVBUF⟩
          _ hsuf
        have hcount : (cs.flatten ++ b.take (CONN_DEFAULT_RCVBUF - rest.length)).length -
            (r.take (CONN_DEFAULT_RCVBUF - ((rest ++ b).length - r.length))).length =
            (cs ++ [b]).flatten.length - r.length := by
          simp only [List.length_append, List.length_take, List.flatten_append, List.flatten_cons,
            List.flatten_nil, List.append_nil] at hlen hr ⊢
          omega
        cases t with
        | accepted q =>
          refine ⟨rfl, _, _, rfl, ?_⟩
          simp only [Out.rest] at hdata
          rw [hdata]; exact hcount
        | rejected st' q =>
          refine ⟨rfl, _, _, rfl, ?_⟩
          simp only [Out.rest] at hdata
          rw [hdata]; exact hcount

/-- **The size of the input buffer does not show.** A stream whose head fits is read as the line
machine reads its chunks. -/
theorem headRun_follows {q : HttpReq} {cs post : List Bytes}
    (hfit : HeadFits q (cs ++ post).flatten) :
    Follows cs (headRun q cs) (feedChunks isEol headAct ⟨.readingFirstline, q.fresh⟩ cs) := by
  induction cs using List.reverseRecOn generalizing post with
  | nil => exact ⟨rfl, rfl, rfl, 0, rfl⟩
  | append_singleton cs b ih =>
    have hfit' : HeadFits q (cs ++ b :: post).flatten := by simpa using hfit
    have hrun : headRun q (cs ++ [b]) = headEvent (headRun q cs) b := by simp [headRun]
    rw [hrun, feedChunks_concat]
    refine headEvent_follows (ih hfit') ?_
    intro st rest ho
    have hnext := headSize_next isEol headAct headAct_empty ho (by decide) hfit'
    have hquiet := feed_more_rest isEol headAct (feedChunks_more isEol headAct headAct_empty ho)
    have hmono := headSize_mono isEol headAct st rest b
    rw [headSize_none isEol headAct hquiet] at hmono
    exact ⟨by omega, hnext⟩

theorem headOutcome_eq {q : HttpReq} {cs : List Bytes} (hfit : HeadFits q cs.flatten) :
    headOutcome q cs = headView cs.flatten.length
      (feedChunks isEol headAct ⟨.readingFirstline, q.fresh⟩ cs) := by
  have h := @headRun_follows q cs [] (by simpa using hfit)
  exact h.view

theorem headView_inj {n : Nat} {o o' : HeadOut} (ho : o.rest.length ≤ n) (ho' : o'.rest.length ≤ n)
    (h : headView n o = headView n o') : o.view = o'.view := by
  have hstatus := congrArg HeadOutcome.status h
  have hcount := congrArg HeadOutcome.consumed h
  have hne : ∀ t : HeadEnd, t.readStatus ≠ .moreDataExpected := by
    intro t; cases t <;> simp [HeadEnd.readStatus]
  cases o with
  | more st r =>
    cases o' with
    | more st' r' =>
      simp only [headView, HttpReq.outcome, Out.rest, Out.view, Prod.mk.injEq, true_and] at *
      omega
    | stop t r' => exact absurd hstatus.symm (hne t)
  | stop t r =>
    cases o' with
    | more st' r' => exact absurd hstatus (hne t)
    | stop t' r' =>
      simp only [headView, HttpReq.outcome, Out.rest, Out.view, Prod.mk.injEq, true_and] at *
      omega

/-- The head of the stream `d` of request `q`, as one delivery of the whole stream reads it. -/
def headBytes (q : HttpReq) (d : Bytes) : Bytes :=
  d.take (headLength isEol headAct ⟨.readingFirstline, q.fresh⟩ d)

/-- **The outcome of reading a head is the same for all ways of cutting the stream exactly when
every line of the head ends with a single CR or LF.** -/
theorem headOutcome_agrees_iff (q : HttpReq) (d : Bytes) (hfit : HeadFits q d) :
    (∀ cs cs' : List Bytes, cs.flatten = d → cs'.flatten = d →
        headOutcome q cs = headOutcome q cs') ↔
      hasMates isEol (headBytes q d) = false := by
  constructor
  · intro h
    cases hm : hasMates isEol (headBytes q d) with
    | false => rfl
    | true =>
      obtain ⟨cs, rfl, hne⟩ := exists_split isEol headAct headAct_empty hm
      have hrest := feedChunks_rest_length isEol headAct ⟨.readingFirstline, q.fresh⟩ cs
      have hrest' := feed_rest_length isEol headAct ⟨.readingFirstline, q.fresh⟩ cs.flatten
      have heq := h cs [cs.flatten] rfl (by simp)
      rw [headOutcome_eq hfit, headOutcome_eq (by simpa using hfit)] at heq
      have hone : feedChunks isEol headAct ⟨.readingFirstline, q.fresh⟩ [cs.flatten] =
          feed isEol headAct ⟨.readingFirstline, q.fresh⟩ cs.flatten := by
        simp [feedChunks, deliver]
      rw [hone] at heq
      rw [show [cs.flatten].flatten = cs.flatten by simp] at heq
      exact absurd (headView_inj hrest hrest' heq) hne
  · rintro h cs cs' rfl hcs'
    have hcut : ∀ cs'' : List Bytes, cs''.flatten = cs.flatten →
        headOutcome q cs'' = headView cs.flatten.length
          (feed isEol headAct ⟨.readingFirstline, q.fresh⟩ cs.flatten) := by
      intro cs'' hcs''
      rw [headOutcome_eq (by rw [hcs'']; exact hfit), hcs'',
        (splits_agree_iff isEol headAct headAct_empty).mpr h cs'' hcs'']
    rw [hcut cs rfl, hcut cs' hcs']

/-- Lines that end with LF alone are read the same way however they are cut. -/
theorem headOutcome_agrees_lf :
    let d := str "GET / HTTP/1.0\nHost: x\n\n"
    HeadFits {} d ∧ ∀ cs cs' : List Bytes, cs.flatten = d → cs'.flatten = d →
      headOutcome {} cs = headOutcome {} cs' := by
  have hfit : HeadFits {} (str "GET / HTTP/1.0\nHost: x\n\n") := by
    unfold HeadFits; decide +kernel
  exact ⟨hfit, (headOutcome_agrees_iff {} _ hfit).mpr (by decide +kernel)⟩

/-- A cut between the CR and the LF of the first line ends the headers. -/
theorem headOutcome_cut_in_crlf :
    ¬ ∀ (q : HttpReq) (d : Bytes), HeadFits q d → ∀ cs cs' : List Bytes, cs.flatten = d →
      cs'.flatten = d → headOutcome q cs = headOutcome q cs' := by
  intro h
  have := h {} (str "GET / HTTP/1.1\r\nHost: x\r\n\r\n") (by unfold HeadFits; decide +kernel)
    [str "GET / HTTP/1.1\r", str "\nHost: x\r\n\r\n"]
    [str "GET / HTTP/1.1\r\nHost: x\r\n\r\n"] (by decide +kernel) (by decide +kernel)
  revert this
  decide +kernel

end Http
end Shs
