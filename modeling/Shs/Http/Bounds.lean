import Shs.Http.Message
import Shs.Http.Output
import Shs.Http.Receive

/-!
# Http.Bounds

The memory behind `req->in` and `req->out`. `Mem` is a request with a note of whether a byte has
been written outside a buffer or outside the `HEADER_SZ` bytes of the array that the lines of a
head are formatted in. The input side checks what it writes; `http_make_header` does not, and
`buffer_shrink` moves a number of bytes that it keeps in an `int`.
-/

namespace Shs
namespace Http

structure Mem where
  req : HttpReq
  outside : Bool := false
  deriving DecidableEq, Repr

namespace Mem

/-- `memcpy(req->out->last, ..)` of `bs`, and `last` moved. -/
def copyOut (m : Mem) (bs : Bytes) : Mem :=
  let out := m.req.outBuf
  { req := putOut m.req bs
    outside := m.outside || decide (out.size < out.pos + out.data.length + bs.length) }

/-- A text is formatted in the array, with its NUL, and copied from there. -/
def formatOut (m : Mem) (text : Bytes) : Mem :=
  copyOut { m with outside := m.outside || decide (HEADER_SZ < text.length + 1) } text

/-- The texts that `http_make_header` formats. -/
def texts (cfg : WriteCfg) (q : HttpReq) : List Bytes :=
  firstLine cfg q :: ((sentHeaders cfg q).map headerLine).filter fun t => !t.isEmpty

/-- `http_make_header`, write by write. The new buffer for head and body has the size of the
two. -/
def makeHeader (cfg : WriteCfg) (m : Mem) : Mem :=
  let m' := (texts cfg m.req).foldl formatOut
    { m with req := { m.req with outputHeaders := sentHeaders cfg m.req } }
  let m' := m'.copyOut CRLF
  { m' with req := joinBody m'.req }

/-- `buffer_shrink(req->out)`. -/
def shrinkOut (m : Mem) : Mem :=
  match bufferShrinkInt m.req.outBuf with
  | none => { m with outside := true }
  | some out => { m with req := { m.req with outBuf := out } }

/-- `conn_send`. -/
def send (rs : List SendResult) (m : Mem) : Mem :=
  let m := m.shrinkOut
  { m with req :=
    { m.req with outBuf := sentOut m.req.outBuf (sendLoop rs m.req.outBuf.data 0).unsent } }

inductive Op where
  | connRecv (rs : List RecvResult)
  | bufferShrinkIn
  | bufferShrinkOut
  | bufferReadline
  | httpReadBody
  | httpMakeHeader (cfg : WriteCfg)
  | connSend (rs : List SendResult)
  /-- the fields other than the buffers become those of `q`: a parser or a caller sets them -/
  | set (q : HttpReq)
  deriving DecidableEq, Repr

def step (m : Mem) : Op → Mem
  | .connRecv rs => { m with req := (Http.connRecv m.req rs).2.1 }
  | .bufferShrinkIn => { m with req := { m.req with inBuf := bufferShrink m.req.inBuf } }
  | .bufferShrinkOut => m.shrinkOut
  | .bufferReadline =>
    match Http.bufferReadline m.req with
    | none => m
    | some (_, q) => { m with req := q }
  | .httpReadBody => { m with req := (readBody m.req).1 }
  | .httpMakeHeader cfg => m.makeHeader cfg
  | .connSend rs => m.send rs
  | .set q => { m with req := { q with inBuf := m.req.inBuf, outBuf := m.req.outBuf } }

/-- A request with the buffers it is created with. -/
def start (q : HttpReq) : Mem :=
  ⟨{ q with inBuf := bufferCreate CONN_DEFAULT_RCVBUF, outBuf := bufferCreate HEADER_SZ }, false⟩

/-- `start <= pos <= last <= end` for both buffers, and nothing written outside. -/
structure Inside (m : Mem) : Prop where
  input : m.req.inBuf.Ok
  output : m.req.outBuf.Ok
  none : m.outside = false

/-! ## The writes of `http_make_header` -/

theorem formatOut_req (m : Mem) (t : Bytes) : (m.formatOut t).req = putOut m.req t := rfl

theorem formatOut_foldl (ts : List Bytes) (m : Mem) :
    (ts.foldl formatOut m).req = putOut m.req ts.flatten := by
  induction ts generalizing m with
  | nil => simp [putOut, bufferUsed]
  | cons t ts ih =>
    rw [List.foldl_cons, ih, formatOut_req]
    simp [putOut, bufferUsed]

theorem filter_flatten (ts : List Bytes) :
    (ts.filter fun t => !t.isEmpty).flatten = ts.flatten := by
  induction ts with
  | nil => rfl
  | cons t ts ih =>
    cases t with
    | nil => simpa using ih
    | cons b bs => simpa using ih

/-- The writes make the message of `httpMakeHeader`. -/
theorem makeHeader_req (cfg : WriteCfg) (m : Mem) :
    (m.makeHeader cfg).req = httpMakeHeader cfg m.req := by
  rw [httpMakeHeader_eq]
  simp only [makeHeader, copyOut, formatOut_foldl, texts, List.flatten_cons, filter_flatten]
  simp [putOut, bufferUsed, head]

theorem formatOut_sticky (ts : List Bytes) {m : Mem} (h : m.outside = true) :
    (ts.foldl formatOut m).outside = true := by
  induction ts generalizing m with
  | nil => exact h
  | cons t ts ih => exact ih (by simp [formatOut, copyOut, h])

/-- Texts stay inside if and only if each fits into the array and all of them into the buffer. -/
theorem formatOut_outside (ts : List Bytes) {m : Mem} (hok : m.req.outBuf.Ok) :
    (ts.foldl formatOut m).outside = false ↔
      m.outside = false ∧ (∀ t ∈ ts, t.length < HEADER_SZ) ∧
        m.req.outBuf.pos + m.req.outBuf.data.length + ts.flatten.length ≤ m.req.outBuf.size := by
  induction ts generalizing m with
  | nil => simpa [Buffer.Ok] using fun _ => hok
  | cons t ts ih =>
    rw [List.foldl_cons]
    simp only [List.flatten_cons, List.length_append, List.mem_cons, forall_eq_or_imp]
    by_cases hroom : m.req.outBuf.pos + m.req.outBuf.data.length + t.length ≤ m.req.outBuf.size
    · have hok' : (m.formatOut t).req.outBuf.Ok := by
        simp only [Buffer.Ok, formatOut_req, putOut, bufferUsed, List.length_append]
        omega
      rw [ih hok']
      have hout : (m.formatOut t).outside = false ↔ m.outside = false ∧ t.length < HEADER_SZ := by
        simp only [formatOut, copyOut, Bool.or_eq_false_iff, decide_eq_false_iff_not]
        constructor
        · rintro ⟨⟨hm, ht⟩, -⟩
          exact ⟨hm, by omega⟩
        · rintro ⟨hm, ht⟩
          exact ⟨⟨hm, by omega⟩, by omega⟩
      rw [hout]
      simp only [formatOut_req, putOut, bufferUsed, List.length_append, and_assoc]
      refine and_congr_right fun _ => and_congr_right fun _ => and_congr_right fun _ => ?_
      omega
    · have hbad : (m.formatOut t).outside = true := by
        simp only [formatOut, copyOut, Bool.or_eq_true, decide_eq_true_eq]
        omega
      rw [formatOut_sticky ts hbad]
      constructor
      · intro h
        cases h
      · rintro ⟨-, -, hfit⟩
        omega

/-- Whether a head fits: its lines into the array, and all of it into `req->out`. -/
def HeadFits (cfg : WriteCfg) (q : HttpReq) : Prop :=
  (∀ t ∈ texts cfg q, t.length < HEADER_SZ) ∧
    q.outBuf.pos + q.outBuf.data.length + (head cfg q).length ≤ q.outBuf.size

theorem head_texts (cfg : WriteCfg) (q : HttpReq) :
    head cfg q = (texts cfg q).flatten ++ CRLF := by
  simp [head, texts, filter_flatten]

/-- On the output buffer that a request is created with, the length of the head decides. -/
theorem headFits_iff (cfg : WriteCfg) {q : HttpReq} (h : q.outBuf = bufferCreate HEADER_SZ) :
    HeadFits cfg q ↔ (head cfg q).length ≤ HEADER_SZ := by
  have hlen := congrArg List.length (head_texts cfg q)
  simp only [List.length_append, CRLF, List.length_cons, List.length_nil] at hlen
  simp only [HeadFits, h, bufferCreate, List.length_nil, Nat.zero_add]
  refine ⟨And.right, fun hle => ⟨fun t ht => ?_, hle⟩⟩
  have hmem := List.Sublist.length_le (List.sublist_flatten_of_mem ht)
  omega

theorem makeHeader_inside (cfg : WriteCfg) {m : Mem} (h : Inside m) :
    (m.makeHeader cfg).outside = false ↔ HeadFits cfg m.req := by
  have hlen := congrArg List.length (head_texts cfg m.req)
  simp only [List.length_append] at hlen
  set m₀ : Mem := { m with req := { m.req with outputHeaders := sentHeaders cfg m.req } }
  have hfold := formatOut_outside (texts cfg m.req) (m := m₀) h.output
  have hreq := formatOut_foldl (texts cfg m.req) m₀
  have hmake : (m.makeHeader cfg).outside =
      (((texts cfg m.req).foldl formatOut m₀).copyOut CRLF).outside := rfl
  rw [hmake]
  simp only [copyOut, hreq, Bool.or_eq_false_iff, hfold, decide_eq_false_iff_not]
  simp only [putOut, bufferUsed, List.length_append]
  simp only [HeadFits]
  have hnone : m₀.outside = false := h.none
  constructor
  · rintro ⟨⟨-, hts, -⟩, hroom⟩
    refine ⟨hts, ?_⟩
    show m₀.req.outBuf.pos + m₀.req.outBuf.data.length + _ ≤ m₀.req.outBuf.size
    omega
  · rintro ⟨hts, hroom⟩
    have hroom' : m₀.req.outBuf.pos + m₀.req.outBuf.data.length + (head cfg m.req).length ≤
        m₀.req.outBuf.size := hroom
    exact ⟨⟨hnone, hts, by omega⟩, by omega⟩

/-! ## Steps -/

/-- What has to hold before a step: a head fits, and the unread bytes that `buffer_shrink` moves
are a number that an `int` holds. -/
def fits (m : Mem) : Op → Prop
  | .httpMakeHeader cfg => HeadFits cfg m.req
  | .bufferShrinkOut | .connSend _ =>
    m.req.outBuf.pos = 0 ∨ 0 ≤ toInt32 m.req.outBuf.data.length
  | _ => True

theorem recvLoop_ok (rs : List RecvResult) {buf : Buffer} (h : buf.Ok) :
    (recvLoop rs buf).2.1.Ok := by
  have hs := bufferShrink_ok h
  induction rs generalizing buf with
  | nil =>
    simp only [recvLoop]
    split <;> exact hs
  | cons r rs ih =>
    simp only [recvLoop]
    split
    · exact hs
    · rename_i hfree
      cases r with
      | again => exact hs
      | eof => exact hs
      | error => exact hs
      | data b bs =>
        simp only
        split
        · rename_i hle
          have hused : (bufferUsed (bufferShrink buf) (b :: bs)).Ok := by
            simp only [bufferFreeSize, Buffer.Ok, bufferUsed, List.length_append] at *
            omega
          exact ih hused (bufferShrink_ok hused)
        · simp only [bufferFreeSize, Buffer.Ok, bufferUsed, List.length_append,
            List.length_take] at *
          omega

theorem bufferReadline_ok {q q' : HttpReq} {line : Bytes} (h : bufferReadline q = some (line, q'))
    (hok : q.inBuf.Ok) : q'.inBuf.Ok ∧ q'.outBuf = q.outBuf := by
  unfold bufferReadline at h
  split at h
  · cases h
  · simp only [Option.some.injEq, Prod.mk.injEq] at h
    rw [← h.2]
    exact ⟨bufferPull_ok hok _ (Nat.sub_le _ _), rfl⟩

theorem readBody_ok {q : HttpReq} (hok : q.inBuf.Ok) :
    (readBody q).1.inBuf.Ok ∧ (readBody q).1.outBuf = q.outBuf := by
  have hpull := bufferPull_ok hok (bufferSize q.inBuf) (Nat.le_refl _)
  simp only [readBody]
  split
  · exact ⟨hpull, rfl⟩
  · split
    · exact ⟨hpull, rfl⟩
    · exact ⟨hok, rfl⟩

theorem bufferShrinkInt_ok {b b' : Buffer} (hok : b.Ok) (h : bufferShrinkInt b = some b') :
    b'.Ok := by
  simp only [bufferShrinkInt] at h
  simp only [Buffer.Ok] at hok ⊢
  split at h
  · cases h; exact hok
  · split at h
    · cases h
      simp [bufferReset]
    · split at h
      · cases h
      · cases h
        simp only [List.length_take, Nat.zero_add]
        omega

theorem bufferShrinkInt_none (b : Buffer) :
    bufferShrinkInt b = none ↔ ¬ (b.pos = 0 ∨ 0 ≤ toInt32 b.data.length) := by
  unfold bufferShrinkInt
  by_cases hpos : b.pos = 0
  · simp [hpos]
  · rw [if_neg hpos]
    by_cases hzero : toInt32 b.data.length = 0
    · simp [hzero]
    · simp only [if_neg hzero]
      by_cases hneg : toInt32 b.data.length < 0
      · simp [hneg, hpos]
      · simp [hneg, hpos, Int.not_lt.mp hneg]

theorem sentOut_ok {out : Buffer} {unsent : Bytes} (hok : out.Ok) : (sentOut out unsent).Ok := by
  unfold sentOut
  split
  · simp [bufferReset, Buffer.Ok]
  · exact bufferPull_ok (bufferShrink_ok hok) _ (Nat.sub_le _ _)

/-- `buffer_shrink` on the output. -/
theorem shrinkOut_inside {m : Mem} (h : Inside m) :
    m.shrinkOut.req.inBuf = m.req.inBuf ∧ m.shrinkOut.req.outBuf.Ok ∧
      (m.shrinkOut.outside = false ↔
        m.req.outBuf.pos = 0 ∨ 0 ≤ toInt32 m.req.outBuf.data.length) := by
  have hnone := bufferShrinkInt_none m.req.outBuf
  unfold shrinkOut
  cases hs : bufferShrinkInt m.req.outBuf with
  | none =>
    refine ⟨rfl, h.output, ⟨fun habs => ?_, fun hgood => absurd hgood (hnone.mp hs)⟩⟩
    cases habs
  | some out =>
    refine ⟨rfl, bufferShrinkInt_ok h.output hs, ⟨fun _ => ?_, fun _ => h.none⟩⟩
    by_contra hbad
    rw [hnone.mpr hbad] at hs
    cases hs

theorem step_inside {m : Mem} (h : Inside m) (op : Op) :
    (fits m op → Inside (step m op)) ∧ ((step m op).outside = false → fits m op) := by
  cases op with
  | connRecv rs => exact ⟨fun _ => ⟨recvLoop_ok rs h.input, h.output, h.none⟩, fun _ => trivial⟩
  | bufferShrinkIn =>
    exact ⟨fun _ => ⟨bufferShrink_ok h.input, h.output, h.none⟩, fun _ => trivial⟩
  | bufferReadline =>
    refine ⟨fun _ => ?_, fun _ => trivial⟩
    simp only [step]
    split
    · exact h
    · rename_i line q hq
      obtain ⟨hin, hout⟩ := bufferReadline_ok hq h.input
      exact ⟨hin, hout ▸ h.output, h.none⟩
  | httpReadBody =>
    obtain ⟨hin, hout⟩ := readBody_ok h.input
    exact ⟨fun _ => ⟨hin, hout ▸ h.output, h.none⟩, fun _ => trivial⟩
  | httpMakeHeader cfg =>
    refine ⟨fun hf => ⟨?_, ?_, (makeHeader_inside cfg h).mpr hf⟩, (makeHeader_inside cfg h).mp⟩
    · obtain ⟨buf, hs, hw⟩ := writes_httpMakeHeader cfg m.req
      rw [step, makeHeader_req, hw]
      exact h.input
    · rw [step, makeHeader_req, httpMakeHeader_eq, joinBody]
      split
      · simp [Buffer.Ok]
      · have hroom := hf.2
        simp only [Buffer.Ok, putOut, bufferUsed, List.length_append] at hroom ⊢
        omega
  | bufferShrinkOut =>
    obtain ⟨hin, hout, hiff⟩ := shrinkOut_inside h
    exact ⟨fun hf => ⟨hin ▸ h.input, hout, hiff.mpr hf⟩, hiff.mp⟩
  | connSend rs =>
    obtain ⟨hin, hout, hiff⟩ := shrinkOut_inside h
    exact ⟨fun hf => ⟨hin ▸ h.input, sentOut_ok hout, hiff.mpr hf⟩, hiff.mp⟩
  | set q => exact ⟨fun _ => ⟨h.input, h.output, h.none⟩, fun _ => trivial⟩

theorem step_sticky {m : Mem} (h : m.outside = true) (op : Op) : (step m op).outside = true := by
  cases op with
  | httpMakeHeader cfg =>
    have hfold := formatOut_sticky (texts cfg m.req)
      (m := { m with req := { m.req with outputHeaders := sentHeaders cfg m.req } }) h
    simp only [step, makeHeader, copyOut, hfold, Bool.true_or]
  | bufferShrinkOut | connSend rs =>
    simp only [step, send, shrinkOut]
    split
    · rfl
    · exact h
  | bufferReadline =>
    simp only [step]
    split
    · exact h
    · exact h
  | _ => exact h

theorem inside_start (q : HttpReq) : Inside (start q) :=
  ⟨Nat.zero_le _, Nat.zero_le _, rfl⟩

/-- Whatever is received, asked for and answered: both buffers keep their bounds and nothing is
written outside if and only if every head that is made fits and `buffer_shrink` is never given
more unsent bytes than an `int` holds. -/
theorem buffers_inside (q : HttpReq) (ops : List Op) :
    Inside (Run.exec step (start q) ops) ↔ Run.Meets step fits (start q) ops := by
  have hback : Run.Meets step fits (start q) ops → Inside (Run.exec step (start q) ops) :=
    Run.invariant step (inside_start q) fun m op hm hf => (step_inside hm op).1 hf
  refine ⟨fun h => ?_, hback⟩
  have hout := h.none
  clear h hback
  induction ops using List.reverseRecOn with
  | nil => exact Run.meets_nil step fits _
  | append_singleton ops op ih =>
    rw [Run.exec_concat] at hout
    have hbefore : (Run.exec step (start q) ops).outside = false := by
      by_contra hbad
      rw [step_sticky (by simpa using hbad) op] at hout
      cases hout
    have hmeets := ih hbefore
    have hinside := Run.invariant step (inside_start q)
      (fun m op hm hf => (step_inside hm op).1 hf) hmeets
    exact hmeets.concat step ((step_inside hinside op).2 hout)

/-- A uri of 5000 bytes does not fit into the 4096 bytes. -/
theorem long_uri_outside :
    ¬ ∀ (q : HttpReq) (ops : List Op), Inside (Run.exec step (start q) ops) := by
  intro h
  have hout := (h { uri := List.replicate 5000 97, major := 1 } [.httpMakeHeader {}]).none
  have huri : cstr (List.replicate 5000 97) = List.replicate 5000 97 := by
    refine (cstr_eq_self_iff _).2 fun hnul => ?_
    exact absurd (List.eq_of_mem_replicate hnul) (by decide)
  have hline := ((step_inside (inside_start _) (.httpMakeHeader {})).2 hout).1 _ List.mem_cons_self
  have hlong : 5000 ≤ (requestLine { uri := List.replicate 5000 97, major := 1 }).length := by
    simp only [requestLine, huri, List.length_append, List.length_replicate]
    omega
  exact absurd hline (Nat.not_lt.2 (Nat.le_trans (by decide) hlong))

end Mem

end Http
end Shs
