import Shs.Http.Receive

/-!
# Http.Verdict

What a read event can decide. `Reads` says, for the status a connection had before, which status
and which verdict `conn_read_handler` may come to, and what it leaves of the request
(`reads_connRead`).
-/

namespace Shs
namespace Http

open LineStream

/-- The connection waits for bytes of a message. -/
def ConnStatus.reading : ConnStatus → Bool
  | .readingFirstline | .readingHeaders | .readingBody => true
  | _ => false

/-- What the reading functions may do from status `st`: the status they leave, and the verdict. -/
inductive Decides (st : ConnStatus) : ConnStatus → Verdict → Prop
  | wait {st'} (h : st.reading = true) (h' : st'.reading = true) : Decides st st' .wait
  | idle (h : st.reading = false) : Decides st st .wait
  | ignore (h : st.reading = false) : Decides st st .ignore
  | done {st'} (h : st.reading = true) (h' : st'.reading = true) : Decides st st' .done
  | invalid {st'} {ec : HttpCode} (h : st.reading = true) (h' : st'.reading = true)
      (hec : ec = .invalidHeader ∨ ec = .invalidBody) : Decides st st' (.fail ec)
  | broken {st'} (h : st'.reading = st.reading) : Decides st st' (.fail .readEof)

theorem Decides.ne_readOn {st st' : ConnStatus} {v : Verdict} (h : Decides st st' v) :
    v ≠ .readOn := by
  cases h <;> simp

/-- Only whether the connection was reading matters. -/
theorem Decides.of_reading {st st₁ st' : ConnStatus} {v : Verdict} (h : Decides st₁ st' v)
    (h₁ : st₁.reading = true) (hst : st.reading = true) : Decides st st' v := by
  cases h with
  | wait _ h' => exact .wait hst h'
  | idle h => rw [h₁] at h; cases h
  | ignore h => rw [h₁] at h; cases h
  | done _ h' => exact .done hst h'
  | invalid _ h' hec => exact .invalid hst h' hec
  | broken h => exact .broken (by rw [h, h₁, hst])

/-- The end of the stream is taken for the end of the message. -/
def Ended (s : Reader) (out : Reader × Verdict) : Prop :=
  out.1.status = .disconnected ∧ out.2 = .done ∧
    (s.status.reading = false → s.req.inBuf.data = [] ∧ s.rcvq.head? = some .eof)

/-- What a read event makes of a connection and its request. -/
structure Reads (s : Reader) (out : Reader × Verdict) : Prop where
  size : out.1.req.inBuf.size = s.req.inBuf.size
  uri : s.status ≠ .readingFirstline ∨ s.req.kind = .response → out.1.req.uri = s.req.uri
  verdict : Decides s.status out.1.status out.2 ∨ Ended s out

theorem Reads.verdicts {s : Reader} {out : Reader × Verdict} (h : Reads s out) :
    out.2 = .wait ∨ out.2 = .ignore ∨ out.2 = .done ∨ out.2 = .fail .readEof ∨
      out.2 = .fail .invalidHeader ∨ out.2 = .fail .invalidBody := by
  obtain ⟨t, v⟩ := out
  rcases h.verdict with hd | hd
  · simp only at hd
    generalize t.status = st' at hd
    cases hd with
    | wait => simp
    | idle => simp
    | ignore => simp
    | done => simp
    | invalid _ _ hec => rcases hec with rfl | rfl <;> simp
    | broken => simp
  · exact .inr (.inr (.inl hd.2.1))

/-- A request that is not read keeps its uri, and only the end of the stream is noticed. -/
theorem Reads.idle {s : Reader} {out : Reader × Verdict} (h : Reads s out)
    (hs : s.status.reading = false) :
    out.1.status.reading = false ∧ out.1.req.uri = s.req.uri ∧
      (out.2 = .done → out.1.status = .disconnected ∧ s.req.inBuf.data = [] ∧
        s.rcvq.head? = some .eof) := by
  have huri : out.1.req.uri = s.req.uri := by
    refine h.uri (.inl fun h' => ?_)
    rw [h'] at hs; cases hs
  obtain ⟨⟨q, st', rcvq⟩, v⟩ := out
  rcases h.verdict with hd | hd
  · simp only at hd huri ⊢
    cases hd with
    | wait h₁ _ => rw [hs] at h₁; cases h₁
    | idle _ => exact ⟨hs, huri, fun h => by cases h⟩
    | ignore _ => exact ⟨hs, huri, fun h => by cases h⟩
    | done h₁ _ => rw [hs] at h₁; cases h₁
    | invalid h₁ _ _ => rw [hs] at h₁; cases h₁
    | broken h₁ => exact ⟨h₁.trans hs, huri, fun h => by cases h⟩
  · have hst : st' = .disconnected := hd.1
    exact ⟨by rw [hst]; rfl, huri, fun _ => ⟨hst, hd.2.2 hs⟩⟩

theorem Reads.quiet {s : Reader} {out : Reader × Verdict} (h : Reads s out)
    (hv : out.2 = .wait ∨ out.2 = .ignore) : out.1.status.reading = s.status.reading := by
  obtain ⟨⟨q, st', rcvq⟩, v⟩ := out
  rcases h.verdict with hd | hd
  · simp only at hd hv ⊢
    cases hd with
    | wait h₁ h₂ => rw [h₁, h₂]
    | idle _ => rfl
    | ignore _ => rfl
    | done => simp at hv
    | invalid => simp at hv
    | broken => simp at hv
  · have hdone : v = .done := hd.2.1
    simp [hdone] at hv

theorem Reads.invalid {s : Reader} {out : Reader × Verdict} (h : Reads s out) {ec : HttpCode}
    (hec : ec = .invalidHeader ∨ ec = .invalidBody) (hv : out.2 = .fail ec) :
    s.status.reading = true ∧ out.1.status.reading = true := by
  obtain ⟨⟨q, st', rcvq⟩, v⟩ := out
  rcases h.verdict with hd | hd
  · simp only at hd hv ⊢
    cases hd with
    | invalid h₁ h₂ _ => exact ⟨h₁, h₂⟩
    | broken => rcases hec with rfl | rfl <;> cases hv
    | _ => cases hv
  · have hdone : v = .done := hd.2.1
    simp [hdone] at hv

/-! ## The head -/

theorem uri_parseFirstline {q : HttpReq} (line : Bytes) (h : q.kind = .response) :
    (parseFirstline q line).1.uri = q.uri := by
  simp only [parseFirstline, h, httpParseResponseLine]
  repeat' split
  all_goals rfl

/-- The status a step of the head machine leaves. -/
def headStatus : HeadState ⊕ HeadEnd → ConnStatus
  | .inl s => s.status
  | .inr (.accepted _) => .readingHeaders
  | .inr (.rejected st _) => st

theorem headAct_status (s : HeadState) (line : Bytes) :
    headStatus (headAct s line) = .readingHeaders ∨
      s.status = .readingFirstline ∧ headStatus (headAct s line) = .readingFirstline := by
  unfold headAct
  split
  · rename_i hs
    rcases parseFirstline s.req line with ⟨q, b⟩
    cases b
    · exact .inr ⟨hs, rfl⟩
    · exact .inl rfl
  · left
    split <;> rfl

theorem headAct_uri (s : HeadState) (line : Bytes)
    (h : s.status ≠ .readingFirstline ∨ s.req.kind = .response) :
    (headReq (headAct s line)).uri = s.req.uri := by
  unfold headAct
  split
  · rename_i hs
    have hk : s.req.kind = .response := h.resolve_left (fun hne => hne hs)
    have hu := uri_parseFirstline line hk
    rcases hp : parseFirstline s.req line with ⟨q, b⟩
    rw [hp] at hu
    cases b <;> exact hu
  · split
    · rename_i hq; obtain ⟨hs, rfl⟩ := parseHeaderLine_table hq; rfl
    · rfl
    · rfl

/-- What a run of the head machine leaves. -/
def headOutState : HeadOut → ConnStatus × HttpReq
  | .more s _ => (s.status, s.req)
  | .stop (.accepted q) _ => (.readingHeaders, q)
  | .stop (.rejected st q) _ => (st, q)

theorem feedHead_status (st : ConnStatus) (q : HttpReq) (d : Bytes)
    (h : st = .readingFirstline ∨ st = .readingHeaders) :
    (headOutState (feedHead st q d)).1 = .readingFirstline ∨
      (headOutState (feedHead st q d)).1 = .readingHeaders := by
  revert h
  refine feed_induction isEol headAct (P := fun s d =>
    s.status = .readingFirstline ∨ s.status = .readingHeaders →
    (headOutState (feed isEol headAct s d)).1 = .readingFirstline ∨
      (headOutState (feed isEol headAct s d)).1 = .readingHeaders) ?_ ?_ ?_ ⟨st, q⟩ d
  · intro s d hl hs
    rw [feed_none isEol headAct hl]; exact hs
  · intro s d l r t hl ha _
    have hst := headAct_status s l
    rw [ha] at hst
    rw [feed_stop isEol headAct hl ha]
    cases t <;> exact hst.elim Or.inr fun h => Or.inl h.2
  · intro s d l r s' hl ha ih _
    have hst := headAct_status s l
    rw [ha] at hst
    rw [feed_next isEol headAct hl ha]
    exact ih (hst.elim Or.inr fun h => Or.inl h.2)

theorem feedHead_uri (st : ConnStatus) (q : HttpReq) (d : Bytes)
    (h : st ≠ .readingFirstline ∨ q.kind = .response) :
    (headOutState (feedHead st q d)).2.uri = q.uri := by
  revert h
  refine feed_induction isEol headAct (P := fun s d =>
    s.status ≠ .readingFirstline ∨ s.req.kind = .response →
    (headOutState (feed isEol headAct s d)).2.uri = s.req.uri) ?_ ?_ ?_ ⟨st, q⟩ d
  · intro s d hl _
    rw [feed_none isEol headAct hl]; rfl
  · intro s d l r t hl ha hs
    have hu := headAct_uri s l hs
    rw [ha] at hu
    rw [feed_stop isEol headAct hl ha]
    cases t <;> exact hu
  · intro s d l r s' hl ha ih hs
    have hu := headAct_uri s l hs
    have hst := headAct_status s l
    have hk := kept_headAct s l
    rw [ha] at hu hst hk
    rw [feed_next isEol headAct hl ha]
    refine (ih ?_).trans hu
    rcases hs with hs | hs
    · left
      have hst' : s'.status = .readingHeaders := hst.resolve_right (fun h => hs h.1)
      rw [hst']; decide
    · right; exact hk.kind.trans hs

theorem readHead_state (s : Reader) :
    (readHead s).1.status = (headOutState (feedHead s.status s.req s.req.inBuf.data)).1 ∧
      (readHead s).1.req.uri = (headOutState (feedHead s.status s.req s.req.inBuf.data)).2.uri ∧
      (readHead s).1.req.inBuf.size = s.req.inBuf.size := by
  unfold readHead
  simp only
  split <;> rename_i h <;> rw [h] <;> exact ⟨rfl, rfl, rfl⟩

/-! ## The body -/

theorem readBody_size (q : HttpReq) : (readBody q).1.inBuf.size = q.inBuf.size := by
  simp only [readBody]
  repeat' split
  all_goals rfl

theorem readBody_uri (q : HttpReq) : (readBody q).1.uri = q.uri := by
  simp only [readBody]
  repeat' split
  all_goals rfl

theorem httpReadBody_req (s : Reader) :
    (httpReadBody s).1.req = (readBody s.req).1 ∧ (httpReadBody s).1.status = s.status := by
  unfold httpReadBody
  split <;> rename_i h <;> rw [h] <;> exact ⟨rfl, rfl⟩

/-- What the functions behind the head leave; the verdict is a final one, or to read on. -/
structure Finished (s : Reader) (out : Reader × Verdict) : Prop where
  size : out.1.req.inBuf.size = s.req.inBuf.size
  uri : out.1.req.uri = s.req.uri
  status : out.1.status = s.status ∨ out.1.status = .readingBody
  verdict : out.2 = .done ∨ out.2 = .fail .invalidBody ∨ out.2 = .readOn

theorem finished_httpReadBody (s : Reader) : Finished s (httpReadBody s) := by
  obtain ⟨hq, hst⟩ := httpReadBody_req s
  refine ⟨by rw [hq, readBody_size], by rw [hq, readBody_uri], .inl hst, ?_⟩
  exact (httpReadBody_verdict s).elim Or.inl fun h => .inr (.inr h)

theorem finished_headRead (s : Reader) : Finished s (headRead s) := by
  have hget : Finished s (httpGetBody s) := by
    unfold httpGetBody
    split
    · exact ⟨rfl, rfl, .inl rfl, .inl rfl⟩
    · simp only
      split
      · exact ⟨rfl, rfl, .inr rfl, .inr (.inl rfl)⟩
      · split
        · exact ⟨rfl, rfl, .inr rfl, .inr (.inl rfl)⟩
        · rename_i n hn
          have hf := finished_httpReadBody
            { s with status := .readingBody, req := { s.req with ntoread := n } }
          exact ⟨hf.size, hf.uri, .inr (hf.status.elim id id), hf.verdict⟩
  unfold headRead
  split
  · exact hget
  · split
    · exact ⟨rfl, rfl, .inl rfl, .inl rfl⟩
    · exact hget

/-! ## One round, and all of them -/

theorem recvDone_reads {s : Reader} (hs : s.status.reading = true) :
    (recvDone s).1.req.inBuf.size = s.req.inBuf.size ∧
      (s.status ≠ .readingFirstline ∨ s.req.kind = .response →
        (recvDone s).1.req.uri = s.req.uri) ∧
      (Decides s.status (recvDone s).1.status (recvDone s).2 ∨
        (recvDone s).2 = .readOn ∧ (recvDone s).1.status = .readingBody) := by
  by_cases hh : s.status = .readingFirstline ∨ s.status = .readingHeaders
  · have hst := feedHead_status s.status s.req s.req.inBuf.data hh
    have huri := feedHead_uri s.status s.req s.req.inBuf.data
    obtain ⟨hst', hu', hsize⟩ := readHead_state s
    rw [← hst'] at hst
    rw [← hu'] at huri
    rw [recvDone_head s hh]
    rcases hr : readHead s with ⟨s', st⟩
    rw [hr] at hst huri hsize
    have hread : s'.status.reading = true := by
      rcases hst with h | h <;> (simp only at h; rw [h]; rfl)
    cases st with
    | allDataRead =>
      have hf := finished_headRead s'
      refine ⟨hf.size.trans hsize, fun h => hf.uri.trans (huri h), ?_⟩
      have hread' : (headRead s').1.status.reading = true := by
        rcases hf.status with h | h <;> rw [h]
        · exact hread
        · rfl
      rcases hf.verdict with h | h | h
      · left; simp only [finishHead, h]; exact .done hs hread'
      · left; simp only [finishHead, h]; exact .invalid hs hread' (.inr rfl)
      · right
        refine ⟨h, ?_⟩
        have hon : headRead s' = ((headRead s').1, .readOn) := Prod.ext rfl h
        exact (headRead_readOn hon).2.2
    | moreDataExpected => exact ⟨hsize, huri, .inl (.wait hs hread)⟩
    | dataCorrupted => exact ⟨hsize, huri, .inl (.invalid hs hread (.inl rfl))⟩
  · have hb : s.status = .readingBody := by
      cases hst : s.status <;> simp_all [ConnStatus.reading]
    have hf := finished_httpReadBody s
    have hst := hf.status
    rw [hb, or_self] at hst
    have hrd : recvDone s = httpReadBody s := by
      unfold recvDone
      rw [hb]
    rw [hrd]
    refine ⟨hf.size, fun _ => hf.uri, ?_⟩
    rcases hf.verdict with h | h | h
    · left; rw [h]; exact .done hs (by rw [hst]; rfl)
    · left; rw [h]; exact .invalid hs (by rw [hst]; rfl) (.inr rfl)
    · exact .inr ⟨h, hst⟩

/-- `recv` reports the end of the stream and nothing is buffered. -/
theorem recvLoop_eof {rs : List RecvResult} {buf : Buffer} (hsize : 0 < buf.size)
    (h : (recvLoop rs buf).1 = 0) (hd : (recvLoop rs buf).2.1.data = []) :
    buf.data = [] ∧ rs.head? = some .eof := by
  obtain ⟨t, hm, -⟩ := recvLoop_spec rs buf
  have hbuf : buf.data = [] := by
    have := hm.data
    rw [hd] at this
    exact (List.append_eq_nil_iff.mp this.symm).1
  refine ⟨hbuf, ?_⟩
  cases rs with
  | nil => simp [recvLoop, bufferFreeSize, bufferShrink, hbuf, Nat.ne_of_gt hsize, SHS_AGAIN] at h
  | cons r rs =>
    cases r with
    | eof => rfl
    | again =>
      simp [recvLoop, bufferFreeSize, bufferShrink, hbuf, Nat.ne_of_gt hsize, SHS_AGAIN] at h
    | error =>
      simp [recvLoop, bufferFreeSize, bufferShrink, hbuf, Nat.ne_of_gt hsize, SHS_ERROR] at h
    | data b bs =>
      exfalso
      rw [recvLoop_data] at hd
      simp only [hbuf, List.length_nil, Nat.sub_zero, Nat.ne_of_gt hsize, if_false] at hd
      split at hd
      · obtain ⟨t', hm', -⟩ := recvLoop_spec rs (bufferUsed (bufferShrink buf) (b :: bs))
        have hdata := hm'.data
        rw [hd] at hdata
        simp at hdata
      · simp [hbuf, Nat.ne_of_gt hsize] at hd

theorem reads_connReadN (armed : Bool) (n : Nat) (s : Reader) (hsize : 0 < s.req.inBuf.size)
    (hfuel : (connReadN armed n s).2 ≠ .stuck) : Reads s (connReadN armed n s) := by
  induction n generalizing s with
  | zero => exact absurd rfl hfuel
  | succ n ih =>
    obtain ⟨buf, t, hq, hm, he⟩ := connRecv_spec s.req s.rcvq
    have heof : (connRecv s.req s.rcvq).1 = 0 → (connRecv s.req s.rcvq).2.1.inBuf.data = [] →
        s.req.inBuf.data = [] ∧ s.rcvq.head? = some .eof := recvLoop_eof hsize
    rcases hr : connRecv s.req s.rcvq with ⟨ret, q, rcvq⟩
    rw [hr] at hq hm he heof
    simp only at hq hm he heof
    subst hq
    simp only [connReadN, hr, withIn_inBuf, bufferSize, List.length_eq_zero_iff] at hfuel ⊢
    simp only [withIn_inBuf] at heof
    split
    · refine ⟨hm.size, fun _ => rfl, .inl ?_⟩
      cases hst : s.status.reading
      · exact .idle hst
      · exact .wait hst hst
    · split
      · exact ⟨hm.size, fun _ => rfl, .inl (.broken rfl)⟩
      · split
        · rename_i h
          exact ⟨hm.size, fun _ => rfl, .inr ⟨rfl, rfl, fun _ => heof h.1 h.2⟩⟩
        · rename_i h₁ h₂ h₃
          simp only [h₁, h₂, h₃, if_false] at hfuel
          cases hst : s.status.reading with
          | false =>
            have hign : recvDone ⟨s.req.withIn buf (s.req.rx ++ t), s.status, rcvq⟩ =
                (⟨s.req.withIn buf (s.req.rx ++ t), s.status, rcvq⟩, .ignore) := by
              unfold recvDone
              cases h : s.status <;> simp_all [ConnStatus.reading]
            simp only [hign]
            exact ⟨hm.size, fun _ => rfl, .inl (.ignore hst)⟩
          | true =>
            have hrd := recvDone_reads (s := ⟨s.req.withIn buf (s.req.rx ++ t), s.status, rcvq⟩) hst
            rcases hout : recvDone ⟨s.req.withIn buf (s.req.rx ++ t), s.status, rcvq⟩ with ⟨s', v⟩
            rw [hout] at hrd hfuel
            obtain ⟨hsz, hu, hv⟩ := hrd
            simp only [withIn_inBuf, withIn_kind] at hsz hu hv
            by_cases hvr : v = .readOn
            · subst hvr
              have hst' : s'.status = .readingBody :=
                hv.elim (fun h => absurd rfl h.ne_readOn) fun h => h.2
              cases armed with
              | false =>
                simp only [Bool.false_eq_true, if_false]
                exact ⟨hsz.trans hm.size, hu, .inl (.wait hst (by rw [hst']; rfl))⟩
              | true =>
                simp only [if_true] at hfuel ⊢
                have hin := ih s' (by rw [hsz, hm.size]; exact hsize) hfuel
                refine ⟨hin.size.trans (hsz.trans hm.size), fun h => ?_, ?_⟩
                · exact (hin.uri (.inl (by rw [hst']; decide))).trans (hu h)
                · rcases hin.verdict with hd | hd
                  · exact .inl (hd.of_reading (by rw [hst']; rfl) hst)
                  · refine .inr ⟨hd.1, hd.2.1, fun h => ?_⟩
                    rw [hst] at h; cases h
            · have hd : Decides s.status s'.status v := hv.resolve_right (fun h => hvr h.1)
              cases v with
              | readOn => exact absurd rfl hvr
              | _ => exact ⟨hsz.trans hm.size, hu, .inl hd⟩

/-- **What a read event can decide.** -/
theorem reads_connRead (armed : Bool) (s : Reader) (hsize : 0 < s.req.inBuf.size) :
    Reads s (connRead armed s) :=
  reads_connReadN armed _ s hsize (connRead_fuel armed s)

/-- A request that is not read only gets more bytes. -/
theorem connRead_idle (armed : Bool) (s : Reader) (hs : s.status.reading = false) :
    ∃ buf t, (connRead armed s).1.req = s.req.withIn buf (s.req.rx ++ t) := by
  obtain ⟨buf, t, hq, -, -⟩ := connRecv_spec s.req s.rcvq
  refine ⟨buf, t, ?_⟩
  rcases hr : connRecv s.req s.rcvq with ⟨ret, q, rcvq⟩
  rw [hr] at hq
  simp only at hq
  have hign : recvDone ⟨q, s.status, rcvq⟩ = (⟨q, s.status, rcvq⟩, .ignore) := by
    unfold recvDone
    cases h : s.status <;> simp_all [ConnStatus.reading]
  simp only [connRead, connReadN, hr, hign]
  split
  · exact hq
  · split
    · exact hq
    · split <;> exact hq

/-! ## A first line that is still read -/

theorem headAct_firstline {s : HeadState} {line : Bytes}
    (h : headStatus (headAct s line) = .readingFirstline) :
    s.status = .readingFirstline ∧ (headReq (headAct s line)).uri = s.req.uri := by
  revert h
  unfold headAct
  split
  · rename_i hs
    refine fun h => ⟨hs, ?_⟩
    have hbad : (parseFirstline s.req line).2 = false →
        (parseFirstline s.req line).1.uri = s.req.uri := by
      simp only [parseFirstline, httpParseRequestLine, httpParseResponseLine]
      repeat' split
      all_goals first | (intro _; rfl) | (intro h; cases h)
    rcases hp : parseFirstline s.req line with ⟨q, b⟩
    rw [hp] at h hbad
    cases b with
    | true => cases h
    | false => exact hbad rfl
  · intro h
    split at h <;> cases h

/-- The status is still that of the first line: no uri has been read. -/
def StillFirst (s out : ConnStatus × HttpReq) : Prop :=
  out.1 = .readingFirstline → s.1 = .readingFirstline ∧ out.2.uri = s.2.uri

theorem feedHead_firstline (st : ConnStatus) (q : HttpReq) (d : Bytes) :
    StillFirst (st, q) (headOutState (feedHead st q d)) := by
  refine feed_induction isEol headAct (P := fun s d =>
    StillFirst (s.status, s.req) (headOutState (feed isEol headAct s d))) ?_ ?_ ?_ ⟨st, q⟩ d
  · intro s d hl
    rw [feed_none isEol headAct hl]
    exact fun h => ⟨h, rfl⟩
  · intro s d l r t hl ha hst
    rw [feed_stop isEol headAct hl ha] at hst ⊢
    have hu := @headAct_firstline s l
    rw [ha] at hu
    cases t <;> exact hu hst
  · intro s d l r s' hl ha ih hst
    rw [feed_next isEol headAct hl ha] at hst ⊢
    obtain ⟨hs', huri⟩ := ih hst
    have hu := @headAct_firstline s l
    rw [ha] at hu
    obtain ⟨hs, huri'⟩ := hu hs'
    exact ⟨hs, huri.trans huri'⟩

theorem recvDone_firstline (s : Reader) :
    StillFirst (s.status, s.req) ((recvDone s).1.status, (recvDone s).1.req) := by
  by_cases hh : s.status = .readingFirstline ∨ s.status = .readingHeaders
  · obtain ⟨hst', hu', -⟩ := readHead_state s
    have hf := feedHead_firstline s.status s.req s.req.inBuf.data
    rw [recvDone_head s hh]
    have hread : StillFirst (s.status, s.req) ((readHead s).1.status, (readHead s).1.req) := by
      intro h
      simp only at h ⊢
      rw [hst'] at h
      rw [hu']
      exact hf h
    rcases hr : readHead s with ⟨s', v⟩
    rw [hr] at hread
    cases v with
    | allDataRead =>
      simp only [finishHead]
      have hfin := finished_headRead s'
      intro h
      simp only at h ⊢
      rcases hfin.status with h' | h'
      · obtain ⟨h₁, h₂⟩ := hread (h'.symm.trans h)
        exact ⟨h₁, hfin.uri.trans h₂⟩
      · rw [h] at h'; cases h'
    | moreDataExpected => exact hread
    | dataCorrupted => exact hread
  · intro h
    exfalso
    refine hh (.inl ?_)
    rw [← h]
    unfold recvDone
    cases hst : s.status <;> simp only [hst, reduceCtorEq, or_self, not_true_eq_false,
      not_false_eq_true, or_false, or_true] at hh ⊢
    exact ((httpReadBody_req s).2.trans hst).symm

theorem connReadN_firstline (armed : Bool) (n : Nat) (s : Reader) :
    StillFirst (s.status, s.req)
      ((connReadN armed n s).1.status, (connReadN armed n s).1.req) := by
  induction n generalizing s with
  | zero => exact fun h => ⟨h, rfl⟩
  | succ n ih =>
    obtain ⟨buf, t, hq, -, -⟩ := connRecv_spec s.req s.rcvq
    rcases hr : connRecv s.req s.rcvq with ⟨ret, q, rcvq⟩
    rw [hr] at hq
    simp only at hq
    subst hq
    simp only [connReadN, hr]
    split
    · exact fun h => ⟨h, rfl⟩
    · split
      · exact fun h => ⟨h, rfl⟩
      · split
        · exact fun h => (by cases h)
        · have hrd := recvDone_firstline ⟨s.req.withIn buf (s.req.rx ++ t), s.status, rcvq⟩
          rcases hout : recvDone ⟨s.req.withIn buf (s.req.rx ++ t), s.status, rcvq⟩ with ⟨s', v⟩
          rw [hout] at hrd
          cases v with
          | readOn =>
            simp only
            split
            · intro h
              obtain ⟨h₁, h₂⟩ := ih s' h
              obtain ⟨h₃, h₄⟩ := hrd h₁
              exact ⟨h₃, h₂.trans h₄⟩
            · exact hrd
          | _ => exact hrd

end Http
end Shs
