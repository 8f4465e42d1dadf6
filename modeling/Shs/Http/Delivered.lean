import Shs.Http.Body
import Shs.Http.Complete
import Shs.Http.Segmentation

/-!
# Http.Delivered

A message that arrives whole, in any number of read events. `readRun` runs the read handler from a
fresh request on; when the head machine accepts the head of the stream, the handler comes to
`http_get_body` with all that stands behind the head, and a body that ends with the stream is the
body the callback sees.
-/

namespace Shs
namespace Http

open LineStream

/-- The read handler on a fresh request, in one read event for each of the chunks `cs`. -/
def readRun (q : HttpReq) (cs : List Bytes) : Reader × Verdict :=
  (cs.map dataOf).foldl bodyEvent (⟨q.fresh, .readingFirstline, []⟩, .wait)

/-- The read handler behind the head, with the rounds that are left of the event, and in the
events `evs`. -/
def behindRun (m : Nat) (s : Reader) (evs : List (List RecvResult)) : Reader × Verdict :=
  evs.foldl bodyEvent
    (match headRead s with
      | (s, .readOn) => connReadN true m s
      | out => out)

/-! ## The socket is drained -/

theorem quiet_dataOf (w : Bytes) : Quiet (dataOf w) := by
  cases w with
  | nil => exact ⟨List.not_mem_nil, List.not_mem_nil⟩
  | cons b bs => exact ⟨by simp [dataOf, putBack], by simp [dataOf, putBack]⟩

theorem rcvqData_dataOf (w : Bytes) : rcvqData (dataOf w) = w := by
  rw [dataOf, rcvqData_putBack]
  simp [rcvqData]

theorem nextPiece_dataOf (w : Bytes) :
    nextPiece (dataOf w) = (w.take CONN_DEFAULT_RCVBUF, dataOf (w.drop CONN_DEFAULT_RCVBUF)) := by
  rw [nextPiece, recvLoop_dataOf _ _ (Nat.zero_le _)]
  rfl

theorem piecesN_dataOf {m : Nat} {w : Bytes} (h : w.length < m) :
    (piecesN m (dataOf w)).1.flatten = w ∧ (piecesN m (dataOf w)).2 = [] := by
  induction m generalizing w with
  | zero => omega
  | succ m ih =>
    rw [piecesN, nextPiece_dataOf]
    cases w with
    | nil => exact ⟨rfl, rfl⟩
    | cons b bs =>
      have hcap : 0 < CONN_DEFAULT_RCVBUF := by decide
      obtain ⟨hdata, hnil⟩ := @ih ((b :: bs).drop CONN_DEFAULT_RCVBUF) (by
        rw [List.length_drop]
        rw [List.length_cons] at h ⊢
        omega)
      obtain ⟨c, cs, htake⟩ := List.exists_cons_of_length_pos
        (l := (b :: bs).take CONN_DEFAULT_RCVBUF) (by
          rw [List.length_take, List.length_cons]
          omega)
      have hwhole := List.take_append_drop CONN_DEFAULT_RCVBUF (b :: bs)
      rw [htake] at hwhole ⊢
      refine ⟨?_, hnil⟩
      show (c :: cs) ++ _ = _
      rw [hdata, hwhole]

theorem pieces_dataOf (w : Bytes) :
    (pieces (dataOf w)).1.flatten = w ∧ (pieces (dataOf w)).2 = [] := by
  rw [pieces, rcvqData_dataOf]
  exact piecesN_dataOf (Nat.lt_succ_self _)

theorem streamPieces_dataOf (w : Bytes) (cs : List Bytes) :
    (streamPieces (dataOf w) (cs.map dataOf)).flatten = w ++ cs.flatten := by
  induction cs generalizing w with
  | nil => simpa [streamPieces] using (pieces_dataOf w).1
  | cons c cs ih =>
    obtain ⟨hdata, hnil⟩ := pieces_dataOf w
    rw [List.map_cons, streamPieces, List.flatten_append, hdata, hnil, List.nil_append, ih,
      List.flatten_cons]

/-! ## A body at the end of the stream -/

/-- Pieces that end with the body are aligned with it. -/
theorem aligned_of_end {n seen : Nat} {ps : List Bytes} (hseen : seen < n)
    (hend : seen + ps.flatten.length = n) : aligned n seen ps = true := by
  induction ps generalizing seen with
  | nil =>
    rw [List.flatten_nil, List.length_nil] at hend
    omega
  | cons p ps ih =>
    rw [List.flatten_cons, List.length_append] at hend
    rw [aligned]
    split
    · rename_i hge
      have hlast : seen + p.length = n := by omega
      simp [hlast]
    · rename_i hlt
      exact ih (by omega) (by omega)

/-- What `bodyRun_collect` says, with any number of rounds that is enough. -/
theorem behindRun_collect {n m : Nat} {s : Reader} {evs : List (List RecvResult)} {b : Bytes}
    (h : BodyDue n s) (hm : (rcvqData s.rcvq).length < m) (hq : ∀ e ∈ evs, Quiet e)
    (hb : collect n [] (bodyPieces s evs) = some b) :
    (behindRun m s evs).2 = .done ∧ (behindRun m s evs).1.req.inputBody = b := by
  have hpos := httpGetBodyLength_pos h.length
  rw [behindRun, headRead_bodyDue h]
  set q : HttpReq := { s.req with ntoread := n } with hqdef
  have hread := readBody_collect q (by rw [show q.inputBody = [] from h.body]; exact h.readDone)
  rw [show q.inputBody = [] from h.body, show q.ntoread = n from rfl,
    show q.inBuf.data = s.req.inBuf.data from rfl, List.length_nil, Nat.zero_add,
    List.nil_append] at hread
  simp only [bodyPieces, collect, List.length_nil, Nat.zero_add, if_true, List.nil_append] at hb
  unfold httpReadBody
  split at hread
  · rename_i hge
    rw [if_pos hge, Option.some.injEq] at hb
    rw [if_pos rfl] at hread
    rcases hrb : readBody q with ⟨q', done⟩
    rw [hrb] at hread
    obtain ⟨hd, hbody⟩ := hread
    simp only at hd hbody
    subst hd
    rw [bodyEvent_done rfl]
    exact ⟨rfl, by rw [← hb]; exact hbody⟩
  · rename_i hlt
    rw [if_neg hlt] at hb
    obtain ⟨buf, hbsize, hbdata, hrb⟩ := hread
    rw [hrb]
    have hcol : Collecting n s.req.inBuf.data
        ⟨{ q with
            inBuf := buf, inputBody := s.req.inBuf.data, ntoread := n,
            readDone := s.req.inBuf.data.length }, .readingBody, s.rcvq⟩ :=
      ⟨rfl, by rw [← h.size]; exact hbsize, hbdata, rfl, rfl, rfl, by omega, h.quiet⟩
    have hevent := connReadN_collected hcol hm
    rw [show (_ : Reader).rcvq = s.rcvq from rfl, piecesN_eq hm] at hevent
    exact foldl_bodyEvent hq hevent hb

/-! ## What is known behind the head -/

/-- What the first line and the headers have said. -/
def HttpReq.said (q : HttpReq) : ReqType × Bytes × Nat × Nat × Int × Bytes × List Header :=
  (q.type, q.uri, q.major, q.minor, q.responseCode, q.responseCodeLine, q.inputHeaders)

theorem said_readBody (q : HttpReq) : (readBody q).1.said = q.said := by
  unfold readBody
  simp only
  split
  · rfl
  · split <;> rfl

theorem said_httpReadBody (s : Reader) : (httpReadBody s).1.req.said = s.req.said := by
  have hsaid := said_readBody s.req
  unfold httpReadBody
  split <;> rename_i hq <;> rw [hq] at hsaid <;> exact hsaid

theorem said_httpGetBody (s : Reader) : (httpGetBody s).1.req.said = s.req.said := by
  unfold httpGetBody
  split
  · rfl
  · simp only
    split
    · rfl
    · split
      · rfl
      · exact said_httpReadBody _

theorem said_headRead (s : Reader) : (headRead s).1.req.said = s.req.said := by
  unfold headRead
  split
  · exact said_httpGetBody s
  · split
    · rfl
    · exact said_httpGetBody s

/-- `http_get_body` fails, is done or reads on. -/
theorem headRead_not_wait (s : Reader) : (headRead s).2 ≠ .wait := by
  have hget : (httpGetBody s).2 ≠ .wait := by
    unfold httpGetBody
    split
    · exact Verdict.noConfusion
    · simp only
      split
      · exact Verdict.noConfusion
      · split
        · exact Verdict.noConfusion
        · rename_i n _
          intro hv
          rcases httpReadBody_verdict
            { s with status := .readingBody, req := { s.req with ntoread := n } } with h | h <;>
            rw [h] at hv <;> cases hv
  unfold headRead
  split
  · exact hget
  · split
    · exact Verdict.noConfusion
    · exact hget

theorem said_connReadN {n : Nat} {s : Reader} (hs : s.status = .readingBody) :
    (connReadN true n s).1.req.said = s.req.said ∧
      ((connReadN true n s).2 = .wait → (connReadN true n s).1.status = .readingBody) := by
  induction n generalizing s with
  | zero => exact ⟨rfl, fun h => by cases h⟩
  | succ n ih =>
    rw [connReadN]
    simp only
    split
    · exact ⟨rfl, fun _ => hs⟩
    · split
      · exact ⟨rfl, fun h => by cases h⟩
      · split
        · exact ⟨rfl, fun h => by cases h⟩
        · have hread : recvDone { s with req := (connRecv s.req s.rcvq).2.1
                                         rcvq := (connRecv s.req s.rcvq).2.2 } =
              httpReadBody { s with req := (connRecv s.req s.rcvq).2.1
                                    rcvq := (connRecv s.req s.rcvq).2.2 } := by
            rw [recvDone]
            simp only [hs]
          have hsaid := said_httpReadBody
            { s with req := (connRecv s.req s.rcvq).2.1, rcvq := (connRecv s.req s.rcvq).2.2 }
          have hverdict := httpReadBody_verdict
            { s with req := (connRecv s.req s.rcvq).2.1, rcvq := (connRecv s.req s.rcvq).2.2 }
          rw [hread]
          split
          · rename_i s' hout
            rw [hout] at hsaid
            obtain ⟨-, -, hstatus⟩ := httpReadBody_readOn hout
            obtain ⟨hnext, hwait⟩ := ih (hstatus.trans hs)
            exact ⟨hnext.trans hsaid, hwait⟩
          · rename_i hne
            refine ⟨hsaid, fun h => ?_⟩
            rcases hverdict with hv | hv <;> rw [hv] at h <;> cases h

theorem said_foldl_bodyEvent {out : Reader × Verdict} (evs : List (List RecvResult))
    (h : out.2 = .wait → out.1.status = .readingBody) :
    (evs.foldl bodyEvent out).1.req.said = out.1.req.said := by
  induction evs generalizing out with
  | nil => rfl
  | cons e evs ih =>
    obtain ⟨s, v⟩ := out
    rw [List.foldl_cons]
    cases v with
    | wait =>
      obtain ⟨hsaid, hwait⟩ := @said_connReadN ((rcvqData (s.rcvq ++ e)).length + 2)
        { s with rcvq := s.rcvq ++ e } (h rfl)
      exact (ih hwait).trans hsaid
    | _ => exact ih h

/-- Reading the body does not touch what the head has said. -/
theorem said_behindRun (m : Nat) (s : Reader) (evs : List (List RecvResult)) :
    (behindRun m s evs).1.req.said = s.req.said := by
  have hhead := said_headRead s
  have hwait := headRead_not_wait s
  rw [behindRun]
  split
  · rename_i s' hout
    rw [hout] at hhead
    obtain ⟨hsaid, hnext⟩ := said_connReadN (n := m) (headRead_readOn hout).2.2
    exact ((said_foldl_bodyEvent evs hnext).trans hsaid).trans hhead
  · exact (said_foldl_bodyEvent evs fun h => absurd h hwait).trans hhead

/-- **A body that ends with the stream is read as it is.** -/
theorem behindRun_body {n m : Nat} {s : Reader} {w : Bytes} {cs : List Bytes} (h : BodyDue n s)
    (hw : s.rcvq = dataOf w) (hm : w.length < m)
    (hend : (s.req.inBuf.data ++ w ++ cs.flatten).length = n) :
    (behindRun m s (cs.map dataOf)).2 = .done ∧
      (behindRun m s (cs.map dataOf)).1.req.inputBody = s.req.inBuf.data ++ w ++ cs.flatten := by
  have hpos := httpGetBodyLength_pos h.length
  have hflat : (bodyPieces s (cs.map dataOf)).flatten = s.req.inBuf.data ++ w ++ cs.flatten := by
    rw [bodyPieces, List.flatten_cons, hw, streamPieces_dataOf, List.append_assoc]
  have hexact : collect n [] (bodyPieces s (cs.map dataOf)) =
      some (s.req.inBuf.data ++ w ++ cs.flatten) := by
    have halign : aligned n 0 (bodyPieces s (cs.map dataOf)) = true :=
      aligned_of_end hpos (by rw [Nat.zero_add, hflat]; exact hend)
    rw [(@collect_exact_iff n [] _ hpos (by rw [List.nil_append, hflat]; omega)).2 halign,
      List.nil_append, hflat, List.take_of_length_le (Nat.le_of_eq hend)]
  refine behindRun_collect h (by rw [hw, rcvqData_dataOf]; exact hm) ?_ hexact
  intro e he
  obtain ⟨c, -, rfl⟩ := List.mem_map.1 he
  exact quiet_dataOf c

/-! ## Up to the end of the head -/

/-- The read event that completes the head: what stands behind it is in the buffer and in the
socket. -/
theorem headEvent_accepted {st : HeadState} {q' : HttpReq} {pos : Nat} {rx rest b r : Bytes}
    (hroom : rest.length ≤ CONN_DEFAULT_RCVBUF)
    (hsize : headSize isEol headAct st (rest ++ b) ≤ CONN_DEFAULT_RCVBUF)
    (hstop : feed isEol headAct st (rest ++ b) = .stop (.accepted q') r) :
    ∃ buf rx' w, headEvent (⟨st.req.withIn ⟨CONN_DEFAULT_RCVBUF, pos, rest⟩ rx, st.status, []⟩,
        .moreDataExpected) b =
      (⟨q'.withIn buf rx', .readingHeaders, dataOf w⟩, .allDataRead) ∧
        buf.size = CONN_DEFAULT_RCVBUF ∧ buf.data ++ w = r ∧ w.length ≤ b.length := by
  have hlen : (rest ++ b).length - r.length ≤ CONN_DEFAULT_RCVBUF := by
    simpa only [headSize, hstop] using hsize
  have hless := feed_stop_length isEol headAct hstop
  have htake := feed_take_stop isEol headAct hstop hlen
  have hsuf := feed_rest_suffix isEol headAct st ((rest ++ b).take CONN_DEFAULT_RCVBUF)
  have hr : r <:+ rest ++ b := by
    have hwhole := feed_rest_suffix isEol headAct st (rest ++ b)
    rwa [hstop] at hwhole
  have hrecv := connRecv_dataOf (st.req.withIn ⟨CONN_DEFAULT_RCVBUF, pos, rest⟩ rx) b hroom
  simp only [withIn_inBuf, withIn_withIn, withIn_rx] at hrecv
  have hne : ((rest ++ b).take CONN_DEFAULT_RCVBUF).length ≠ 0 := by
    have hcap : 0 < CONN_DEFAULT_RCVBUF := by decide
    rw [List.length_take]
    omega
  have hfeed : feedHead st.status (st.req.withIn
      ⟨CONN_DEFAULT_RCVBUF, 0, (rest ++ b).take CONN_DEFAULT_RCVBUF⟩
      (rx ++ b.take (CONN_DEFAULT_RCVBUF - rest.length))) ((rest ++ b).take CONN_DEFAULT_RCVBUF) =
      (feed isEol headAct st ((rest ++ b).take CONN_DEFAULT_RCVBUF)).map
        (HeadState.withIn _ _) (HeadEnd.withIn _ _) := feedHead_withIn st.status st.req _ _ _
  rw [htake] at hsuf hfeed
  refine ⟨Buffer.readTo ⟨CONN_DEFAULT_RCVBUF, 0, (rest ++ b).take CONN_DEFAULT_RCVBUF⟩
    (r.take (CONN_DEFAULT_RCVBUF - ((rest ++ b).length - r.length))),
    rx ++ b.take (CONN_DEFAULT_RCVBUF - rest.length), (rest ++ b).drop CONN_DEFAULT_RCVBUF,
    ?_, ?_, ?_, ?_⟩
  · simp only [headEvent, List.nil_append, hrecv, withIn_inBuf, bufferSize, if_neg hne, readHead,
      hfeed, Out.map, HeadEnd.withIn, withIn_withIn]
    rfl
  · rfl
  · have hdata := @readTo_data
      ⟨CONN_DEFAULT_RCVBUF, 0, (rest ++ b).take CONN_DEFAULT_RCVBUF⟩ _ hsuf
    simp only [Out.rest] at hdata
    rw [hdata]
    obtain ⟨h, heq⟩ := hr
    have hh : (rest ++ b).length - r.length = h.length := by
      rw [← heq, List.length_append]
      omega
    rw [hh] at hlen ⊢
    rw [← heq, List.drop_append, List.drop_of_length_le hlen, List.nil_append,
      List.take_append_drop]
  · rw [List.length_drop, List.length_append]
    omega

theorem readRun_concat (q : HttpReq) (cs : List Bytes) (b : Bytes) :
    readRun q (cs ++ [b]) = bodyEvent (readRun q cs) (dataOf b) := by
  simp [readRun]

/-- While the head is not complete the handler waits, as the line machine does. -/
theorem readRun_waits {q : HttpReq} {cs post : List Bytes} {st : HeadState} {rest : Bytes}
    (hfit : HeadFits q (cs ++ post).flatten)
    (hmore : feedChunks isEol headAct ⟨.readingFirstline, q.fresh⟩ cs = .more st rest) :
    (st.status = .readingFirstline ∨ st.status = .readingHeaders) ∧
      rest.length ≤ CONN_DEFAULT_RCVBUF ∧
      ∃ pos, readRun q cs = (⟨st.req.withIn ⟨CONN_DEFAULT_RCVBUF, pos, rest⟩ cs.flatten,
        st.status, []⟩, .wait) := by
  have hstatus : st.status = .readingFirstline ∨ st.status = .readingHeaders := by
    have hwhole := feedChunks_more isEol headAct headAct_empty hmore
    have hhead := feedHead_status .readingFirstline q.fresh cs.flatten (.inl rfl)
    rw [feedHead, hwhole] at hhead
    exact hhead
  induction cs using List.reverseRecOn generalizing post st rest with
  | nil =>
    cases hmore
    exact ⟨hstatus, Nat.zero_le _, 0, rfl⟩
  | append_singleton cs b ih =>
    have hfit' : HeadFits q (cs ++ b :: post).flatten := by simpa using hfit
    rw [feedChunks_concat] at hmore
    cases hprev : feedChunks isEol headAct ⟨.readingFirstline, q.fresh⟩ cs with
    | stop t r =>
      rw [hprev] at hmore
      cases hmore
    | more st₀ rest₀ =>
      have hwhole := feedChunks_more isEol headAct headAct_empty hprev
      have hhead := feedHead_status .readingFirstline q.fresh cs.flatten (.inl rfl)
      rw [feedHead, hwhole] at hhead
      obtain ⟨hst₀, hroom₀, pos₀, hrun₀⟩ := ih hfit' hprev hhead
      have hnext := headSize_next isEol headAct headAct_empty hprev (by decide) hfit'
      have hfollows := @headEvent_follows cs
        (⟨st₀.req.withIn ⟨CONN_DEFAULT_RCVBUF, pos₀, rest₀⟩ cs.flatten, st₀.status, []⟩,
          .moreDataExpected) (.more st₀ rest₀) b ⟨rfl, rfl, rfl, pos₀, rfl⟩ (by
            intro st' rest' heq
            cases heq
            exact ⟨hroom₀, hnext⟩)
      rw [hprev] at hmore
      rw [hmore] at hfollows
      obtain ⟨hret, hrcvq, hstat, pos, hreq⟩ := hfollows
      refine ⟨hstatus, ?_, pos, ?_⟩
      · have hfeed : feed isEol headAct st₀ (rest₀ ++ b) = .more st rest := hmore
        have hle := feed_rest_length isEol headAct st₀ (rest₀ ++ b)
        simp only [headSize, hfeed] at hnext
        rw [hfeed] at hle
        exact Nat.le_trans hle hnext
      · rw [readRun_concat, hrun₀]
        show connRead true { (_ : Reader) with rcvq := [] ++ dataOf b } = _
        rw [List.nil_append, connRead, connReadN_headEvent true _ _ b hst₀ rfl hroom₀
          (show 0 < CONN_DEFAULT_RCVBUF by decide)]
        rcases hev : headEvent (⟨st₀.req.withIn ⟨CONN_DEFAULT_RCVBUF, pos₀, rest₀⟩ cs.flatten,
          st₀.status, []⟩, .moreDataExpected) b with ⟨⟨q₁, st₁, rcvq₁⟩, ret⟩
        rw [hev] at hret hrcvq hstat hreq
        simp only at hret hrcvq hstat hreq
        subst hret hrcvq hstat hreq
        rfl

/-- Chunks that stop a machine have one that stops it. -/
theorem feedChunks_stop {st : HeadState} {cs : List Bytes} {t : HeadEnd} {r : Bytes}
    (h : feedChunks isEol headAct st cs = .stop t r) :
    ∃ pre b post st' rest r', cs = pre ++ b :: post ∧
      feedChunks isEol headAct st pre = .more st' rest ∧
      feed isEol headAct st' (rest ++ b) = .stop t r' ∧ r = r' ++ post.flatten := by
  induction cs using List.reverseRecOn generalizing r with
  | nil => cases h
  | append_singleton cs b ih =>
    rw [feedChunks_concat] at h
    cases hprev : feedChunks isEol headAct st cs with
    | more st' rest =>
      rw [hprev] at h
      exact ⟨cs, b, [], st', rest, r, rfl, hprev, h, by simp⟩
    | stop t₀ r₀ =>
      rw [hprev] at h
      cases h
      obtain ⟨pre, c, post, st', rest, r', rfl, hmore, hstop, rfl⟩ := ih hprev
      exact ⟨pre, c, post ++ [b], st', rest, r', by simp, hmore, hstop, by simp⟩

/-- **A head that the machine accepts is read**, and the handler goes on with what stands behind
it. -/
theorem readRun_accepted {q q' : HttpReq} {cs : List Bytes} {rest : Bytes}
    (hhead : feedHead .readingFirstline q.fresh cs.flatten = .stop (.accepted q') rest)
    (hfit : HeadFits q cs.flatten)
    (hcuts : CutsOk isEol headAct ⟨.readingFirstline, q.fresh⟩ cs) :
    ∃ (buf : Buffer) (rx w : Bytes) (post : List Bytes) (m : Nat), buf.size = CONN_DEFAULT_RCVBUF ∧ w.length < m ∧
      buf.data ++ w ++ post.flatten = rest ∧
      readRun q cs =
        behindRun m ⟨q'.withIn buf rx, .readingHeaders, dataOf w⟩ (post.map dataOf) := by
  rw [feedHead, ← feedChunks_flatten isEol headAct hcuts] at hhead
  obtain ⟨pre, b, post, st, r₀, r, rfl, hmore, hstop, rfl⟩ := feedChunks_stop hhead
  obtain ⟨hst, hroom, pos, hrun⟩ := readRun_waits hfit hmore
  have hsize := headSize_next isEol headAct headAct_empty hmore (by decide) hfit
  obtain ⟨buf, rx, w, hev, hbuf, hdata, hw⟩ :=
    @headEvent_accepted st q' pos pre.flatten r₀ b r hroom hsize hstop
  refine ⟨buf, rx, w, post, b.length + 1, hbuf, by omega, by rw [hdata], ?_⟩
  have hfirst : readRun q (pre ++ b :: post) =
      (post.map dataOf).foldl bodyEvent (readRun q (pre ++ [b])) := by
    simp [readRun]
  rw [hfirst, readRun_concat, hrun]
  show (post.map dataOf).foldl bodyEvent (connRead true { (_ : Reader) with rcvq := [] ++ dataOf b }) = _
  rw [List.nil_append, connRead, rcvqData_dataOf,
    connReadN_headEvent true _ _ b hst rfl hroom (show 0 < CONN_DEFAULT_RCVBUF by decide), hev]
  rfl

/-! ## A whole message -/

section Whole

variable {q q' : HttpReq} {cs : List Bytes} {rest : Bytes}
  (hhead : feedHead .readingFirstline q.fresh cs.flatten = .stop (.accepted q') rest)
  (hfit : HeadFits q cs.flatten) (hcuts : CutsOk isEol headAct ⟨.readingFirstline, q.fresh⟩ cs)

include hhead hfit hcuts

/-- A message without a body is handed on behind its head. -/
theorem readRun_bodyless (hnone : needsBody q'.kind q' = false) :
    (readRun q cs).2 = .done ∧ (readRun q cs).1.req.said = q'.said ∧
      (readRun q cs).1.req.inputBody = q'.inputBody := by
  obtain ⟨buf, rx, w, post, m, -, -, -, hrun⟩ := readRun_accepted hhead hfit hcuts
  have hread : headRead ⟨q'.withIn buf rx, .readingHeaders, dataOf w⟩ =
      (⟨q'.withIn buf rx, .readingHeaders, dataOf w⟩, .done) := by
    unfold headRead
    cases hk : q'.kind with
    | request =>
      rw [hk, needsBody] at hnone
      have htype : q'.type ≠ .post := by simpa using hnone
      simp only [withIn_kind, hk]
      exact if_pos ⟨hk, htype⟩
    | response =>
      rw [hk, needsBody] at hnone
      have hcode : bodyless q'.responseCode = true := by simpa using hnone
      simp only [withIn_kind, hk]
      exact if_pos hcode
  rw [hrun, behindRun, hread, bodyEvent_done rfl]
  exact ⟨rfl, rfl, rfl⟩

/-- A message whose body cannot be told is refused. -/
theorem readRun_refused (hneeds : needsBody q'.kind q' = true)
    (hlength : httpIsChunked q' = true ∨ httpGetBodyLength q' = none) :
    (readRun q cs).2 = .fail .invalidBody := by
  obtain ⟨buf, rx, w, post, m, -, -, -, hrun⟩ := readRun_accepted hhead hfit hcuts
  have hget : ∀ s : Reader, s.req = q'.withIn buf rx → (s.req.kind = .request → s.req.type = .post) →
      (httpGetBody s).2 = .fail .invalidBody := by
    intro s hs hpost
    have hchunked : httpIsChunked s.req = httpIsChunked q' := by rw [hs]; rfl
    have hlen : httpGetBodyLength s.req = httpGetBodyLength q' := by rw [hs]; rfl
    unfold httpGetBody
    rw [if_neg fun h => h.2 (hpost h.1)]
    simp only [hchunked, hlen]
    rcases hlength with h | h
    · rw [h]
      rfl
    · rw [h]
      split <;> rfl
  have hread : (headRead ⟨q'.withIn buf rx, .readingHeaders, dataOf w⟩).2 = .fail .invalidBody := by
    unfold headRead
    cases hk : q'.kind with
    | request =>
      rw [hk, needsBody] at hneeds
      have htype : q'.type = .post := by simpa using hneeds
      simp only [withIn_kind, hk]
      exact hget _ rfl fun _ => htype
    | response =>
      rw [hk, needsBody] at hneeds
      have hcode : bodyless q'.responseCode = false := by simpa using hneeds
      simp only [withIn_kind, hk]
      rw [if_neg (by rw [show (q'.withIn buf rx).responseCode = q'.responseCode from rfl, hcode]; decide)]
      exact hget _ rfl fun h => by
        rw [withIn_kind, hk] at h
        cases h
  have hfold : ∀ (evs : List (List RecvResult)) (out : Reader × Verdict),
      out.2 = .fail .invalidBody → (evs.foldl bodyEvent out).2 = .fail .invalidBody := by
    intro evs
    induction evs with
    | nil => exact fun _ h => h
    | cons e evs ih =>
      rintro ⟨s, v⟩ h
      cases h
      exact ih _ rfl
  rw [hrun, behindRun]
  refine hfold _ _ ?_
  split
  · rename_i hout
    rw [hout] at hread
    cases hread
  · exact hread

/-- A message whose body ends with the stream is handed on with that body. -/
theorem readRun_body (hneeds : needsBody q'.kind q' = true) (hchunked : httpIsChunked q' = false)
    (hlength : httpGetBodyLength q' = some rest.length) (hbody : q'.inputBody = [])
    (hdone : q'.readDone = 0) :
    (readRun q cs).2 = .done ∧ (readRun q cs).1.req.said = q'.said ∧
      (readRun q cs).1.req.inputBody = rest := by
  obtain ⟨buf, rx, w, post, m, hsize, hm, hrest, hrun⟩ := readRun_accepted hhead hfit hcuts
  have htype : q'.kind = .request → q'.type = .post := by
    intro hk
    rw [hk, needsBody] at hneeds
    simpa using hneeds
  have hcode : q'.kind = .response → bodyless q'.responseCode = false := by
    intro hk
    rw [hk, needsBody] at hneeds
    simpa using hneeds
  have hdue : BodyDue rest.length ⟨q'.withIn buf rx, .readingHeaders, dataOf w⟩ :=
    ⟨hsize, hbody, hdone, htype, hcode, hchunked, hlength, quiet_dataOf w⟩
  obtain ⟨hverdict, hread⟩ := @behindRun_body _ m _ w post hdue rfl hm (by rw [← hrest]; rfl)
  rw [hrun]
  exact ⟨hverdict, said_behindRun m _ _, hread.trans hrest⟩

end Whole

/-! ## Every way of cutting the bytes -/

/-- A message that has been handed on does not change with what comes next. -/
theorem readRun_done {q : HttpReq} {cs : List Bytes} (h : (readRun q cs).2 = .done) (b : Bytes) :
    readRun q (cs ++ [b]) = readRun q cs :=
  (readRun_concat q cs b).trans (bodyEvent_done h [dataOf b])

theorem cutsOk_single (s : HeadState) (c : Bytes) : CutsOk isEol headAct s [c] := by
  intro pre b post hcs _
  cases pre with
  | nil =>
    intro x y hx
    cases hx
  | cons d pre => simp at hcs

/-- One cut that is behind the head or not inside a line end. -/
theorem cutsOk_pair {s : HeadState} {a b : Bytes}
    (h : a.length < headLength isEol headAct s (a ++ b) → CutOk isEol a b) :
    CutsOk isEol headAct s [a, b] := by
  intro pre c post hcs hlt
  cases pre with
  | nil =>
    intro x y hx
    cases hx
  | cons d pre =>
    obtain ⟨rfl, htail⟩ := List.cons.inj hcs
    cases pre with
    | nil =>
      obtain ⟨hc, -⟩ := List.cons.inj htail
      rw [← hc]
      simpa using h (by simpa using hlt)
    | cons e pre => simp at htail

/-- A head that fits the output buffer of the sender fits the input buffer of the receiver. -/
theorem head_fits {hd body bytes : Bytes} (h : bytes = hd ++ body)
    (hfits : bytes.length ≤ HEADER_SZ + body.length) : hd.length ≤ CONN_DEFAULT_RCVBUF := by
  have hcap : HEADER_SZ ≤ CONN_DEFAULT_RCVBUF := by decide
  rw [h, List.length_append] at hfits
  omega

section Accepted

variable {q q' : HttpReq} {hd : Bytes}
  (hhead : ∀ d, feedHead .readingFirstline q.fresh (hd ++ d) = .stop (.accepted q') d)
  (hcap : hd.length ≤ CONN_DEFAULT_RCVBUF)

include hhead

/-- A cut behind the head. -/
theorem cutsOk_behind (d d' : Bytes) :
    CutsOk isEol headAct ⟨.readingFirstline, q.fresh⟩ [hd ++ d, d'] := by
  refine cutsOk_pair fun hlt => ?_
  have hfeed := hhead (d ++ d')
  rw [feedHead] at hfeed
  rw [List.append_assoc, headLength, hfeed] at hlt
  simp only [Out.rest, List.length_append] at hlt
  omega

include hcap

theorem headFits_accepted (d : Bytes) : HeadFits q (hd ++ d) := by
  have hfeed := hhead d
  rw [feedHead] at hfeed
  rw [HeadFits, headSize, hfeed, List.length_append]
  simp only
  omega

variable (hneeds : needsBody q'.kind q' = true) (hbody : q'.inputBody = [])
  (hdone : q'.readDone = 0)

include hneeds hbody hdone

/-- The body that the head tells is handed on. -/
theorem readRun_told (data : Bytes) (cs : List Bytes) (hchunked : httpIsChunked q' = false)
    (hlength : httpGetBodyLength q' = some data.length)
    (hcs : cs.flatten = hd ++ data) (hcuts : CutsOk isEol headAct ⟨.readingFirstline, q.fresh⟩ cs) :
    (readRun q cs).2 = .done ∧ (readRun q cs).1.req.said = q'.said ∧
      (readRun q cs).1.req.inputBody = data :=
  readRun_body (hcs ▸ hhead data) (hcs ▸ headFits_accepted hhead hcap data) hcuts hneeds hchunked
    hlength hbody hdone

omit hbody hdone in
/-- A head whose body was handed on told some length. -/
theorem length_of_done {data : Bytes} (h : (readRun q [hd ++ data]).2 = .done) :
    httpIsChunked q' = false ∧ ∃ n, httpGetBodyLength q' = some n := by
  have haccepted : ¬ (httpIsChunked q' = true ∨ httpGetBodyLength q' = none) := by
    intro hrefused
    have hfits := headFits_accepted hhead hcap data
    have hfail := readRun_refused (by simpa using hhead data) (by simpa using hfits)
      (cutsOk_single _ (hd ++ data)) hneeds hrefused
    rw [h] at hfail
    cases hfail
  rw [not_or, Bool.not_eq_true] at haccepted
  exact ⟨haccepted.1, Option.ne_none_iff_exists'.1 haccepted.2⟩

/-- **A head that delivers its body however the bytes are cut tells its length.** A body that is
told too short is handed on when that much is there, and one that is told too long takes the bytes
that come next. -/
theorem told_of_delivered {data : Bytes}
    (h : ∀ cs, cs.flatten = hd ++ data → CutsOk isEol headAct ⟨.readingFirstline, q.fresh⟩ cs →
      (readRun q cs).2 = .done ∧ (readRun q cs).1.req.inputBody = data) :
    httpIsChunked q' = false ∧ httpGetBodyLength q' = some data.length := by
  obtain ⟨hwhole, hgot⟩ := h [hd ++ data] (by simp) (cutsOk_single _ _)
  obtain ⟨hchunked, n, hlength⟩ := length_of_done hhead hcap hneeds hwhole
  refine ⟨hchunked, hlength.trans (congrArg some ?_)⟩
  rcases Nat.lt_trichotomy n data.length with hlt | heq | hgt
  · -- The first `n` bytes of the body come alone, and are handed on.
    obtain ⟨hfirst, -, htake⟩ := readRun_told hhead hcap hneeds hbody hdone (data.take n)
      [hd ++ data.take n] hchunked (by rw [hlength, List.length_take, Nat.min_eq_left hlt.le])
      (by simp) (cutsOk_single _ _)
    have hcut := h [hd ++ data.take n, data.drop n] (by simp) (cutsOk_behind hhead _ _)
    have hsame : readRun q [hd ++ data.take n, data.drop n] = readRun q [hd ++ data.take n] :=
      readRun_done hfirst _
    rw [hsame, htake] at hcut
    have hshort := congrArg List.length hcut.2
    rw [List.length_take] at hshort
    omega
  · exact heq
  · -- The bytes that are missing come next, and would have to be part of the body.
    obtain ⟨more, hmore⟩ : ∃ more : Bytes, more.length = n - data.length :=
      ⟨List.replicate (n - data.length) NUL, List.length_replicate⟩
    have hlen : (data ++ more).length = n := by
      rw [List.length_append, hmore]
      omega
    have hnext := readRun_told hhead hcap hneeds hbody hdone (data ++ more) [hd ++ data, more]
      hchunked (by rw [hlength, hlen]) (by simp) (cutsOk_behind hhead _ _)
    have hsame : readRun q [hd ++ data, more] = readRun q [hd ++ data] := readRun_done hwhole _
    rw [hsame, hgot] at hnext
    have hlong := congrArg List.length hnext.2.2
    rw [hlen] at hlong
    omega

end Accepted

end Http
end Shs
