import Shs.Http.Delivered
import Shs.Http.Generated
import Shs.Http.Lookup

/-!
# Http.RoundTrip

A reply that `http_send_reply` makes, read by the parser of the client side: which replies come
through with their code, reason, fields and body, however the network cuts them.
-/

namespace Shs
namespace Http

open LineStream

/-- A field that can be read back and that no search for a framing header finds. -/
structure PlainField (h : Header) : Prop where
  ok     : FieldOk h
  length : h.named (str "Content-Length") = false
  coding : h.named (str "Transfer-Encoding") = false

/-- `FieldOk`, as a test. -/
def Header.readable (h : Header) : Bool :=
  let plain := fun b => b != SP && b != TAB
  !h.key.isEmpty && h.key.all (fun b => b != 58 && b != CR && b != LF && b != NUL) &&
    h.key.head?.all plain && !h.value.isEmpty &&
    h.value.all (fun b => b != CR && b != LF && b != NUL) && h.value.head?.all plain

theorem fieldOk_of_readable {h : Header} (hr : h.readable = true) : FieldOk h := by
  simp only [Header.readable, Bool.and_eq_true, Bool.not_eq_true', List.isEmpty_eq_false_iff,
    List.all_eq_true, bne_iff_ne, ne_eq, Option.all_eq_true] at hr
  obtain ⟨⟨⟨⟨⟨hkey, hktext⟩, hkhead⟩, hvalue⟩, hvtext⟩, hvhead⟩ := hr
  exact ⟨hkey, fun b hb => ⟨(hktext b hb).1.1.1, (hktext b hb).1.1.2, (hktext b hb).1.2,
    (hktext b hb).2⟩, hkhead, hvalue, fun b hb => ⟨(hvtext b hb).1.1, (hvtext b hb).1.2,
    (hvtext b hb).2⟩, hvhead⟩

/-- A fact about the bytes of a literal, from a test of each. `decide` on the statement itself may
go through all 256 values of a byte instead of the list. -/
theorem forall_mem_of_all {P : Byte → Prop} [DecidablePred P] {s : Bytes}
    (h : s.all (fun b => decide (P b)) = true) : ∀ b ∈ s, P b :=
  fun b hb => of_decide_eq_true (List.all_eq_true.1 h b hb)

/-! ## The length of the body -/

theorem find_none_of_unnamed {hs : List Header} {name : Bytes}
    (h : ∀ e ∈ hs, e.named name = false) : hs.find? (Header.named name) = none := by
  rw [List.find?_eq_none]
  intro e he
  simp [h e he]

/-- The Content-Length entry of a table, where it got a slot. -/
theorem find_length {us pre post : List Header} {c : Header} (hl : us.length ≤ HEADER_NUM)
    (hus : ∀ e ∈ us, e.named (str "Content-Length") = false)
    (hpre : ∀ e ∈ pre, e.named (str "Content-Length") = false)
    (hc : c.named (str "Content-Length") = true) :
    httpFindHeader (tableOf (addFields us (pre ++ c :: post))) (str "Content-Length") =
      if us.length + pre.length < HEADER_NUM then some (cstr c.value) else none := by
  have hus := find_none_of_unnamed hus
  rw [httpFindHeader_tableOf, addFields_eq hl, take_middle, httpFindHeader, List.find?_append, hus,
    Option.none_or]
  by_cases hroom : us.length + pre.length < HEADER_NUM
  · rw [if_pos (by omega), if_pos hroom, List.find?_append, find_none_of_unnamed hpre,
      Option.none_or, List.find?_cons, hc]
    rfl
  · rw [if_neg (by omega), if_neg hroom,
      find_none_of_unnamed fun e he => hpre e (List.mem_of_mem_take he)]
    rfl

/-- `http_get_body_length` on the header that `http_add_content_length_header` writes. -/
theorem httpGetBodyLength_decimal {q : HttpReq} {n : Nat} (hn : n < 2 ^ 63)
    (h : httpFindHeader q.inputHeaders (str "Content-Length") = some (decimal n)) :
    httpGetBodyLength q = if n = 0 then none else some n := by
  rw [httpGetBodyLength, h]
  simp only [strtoll_decimal (v := n) (by omega) (by omega)]
  by_cases hz : n = 0
  · rw [if_pos hz, if_pos (.inr (.inr (by omega)))]
  · rw [if_neg hz, if_neg (by
      rintro (hempty | hrest | hle)
      · exact decimal_ne_nil _ hempty
      · exact hrest rfl
      · omega), Int.toNat_natCast]

theorem not_chunked {q : HttpReq} {us : List Header} (hq : q.inputHeaders = tableOf us)
    (h : ∀ e ∈ us, e.named (str "Transfer-Encoding") = false) : httpIsChunked q = false := by
  rw [httpIsChunked, hq, httpFindHeader_tableOf, httpFindHeader, find_none_of_unnamed h]
  rfl

/-! ## The head of a reply -/

def protocol (minor : Nat) : Bytes := if minor = 0 then str "HTTP/1.0" else str "HTTP/1.1"

theorem protocol_eq {minor : Nat} (h : minor = 0 ∨ minor = 1) :
    str "HTTP/" ++ decimal (1 : Nat) ++ str "." ++ decimal minor = protocol minor := by
  rcases h with rfl | rfl <;> decide

theorem mem_protocol {minor : Nat} {b : Byte} (hb : b ∈ protocol minor) :
    b ≠ SP ∧ b ≠ CR ∧ b ≠ LF ∧ b ≠ NUL := by
  have hall : ∀ c ∈ str "HTTP/1.0" ++ str "HTTP/1.1", c ≠ SP ∧ c ≠ CR ∧ c ≠ LF ∧ c ≠ NUL :=
    forall_mem_of_all (by decide)
  unfold protocol at hb
  split at hb
  · exact hall b (List.mem_append_left _ hb)
  · exact hall b (List.mem_append_right _ hb)

/-- The status line without its line end. -/
def statusText (minor : Nat) (code : Int) (reason : Bytes) : Bytes :=
  protocol minor ++ SP :: (decimal code ++ SP :: reason)

theorem mem_statusText {minor : Nat} {code : Int} {reason : Bytes}
    (hreason : ∀ b ∈ reason, b ≠ CR ∧ b ≠ LF ∧ b ≠ NUL) {b : Byte}
    (hb : b ∈ statusText minor code reason) : b ≠ CR ∧ b ≠ LF ∧ b ≠ NUL := by
  simp only [statusText, List.mem_append, List.mem_cons] at hb
  rcases hb with hb | rfl | hb | rfl | hb
  · exact (mem_protocol hb).2
  · decide
  · exact ⟨(mem_decimal hb).2.1, (mem_decimal hb).2.2.1, (mem_decimal hb).1⟩
  · decide
  · exact hreason b hb

theorem httpParseResponseLine_statusText (p : HttpReq) {minor : Nat} {code : Int} {reason : Bytes}
    (hminor : minor = 0 ∨ minor = 1) (hlo : -2 ^ 31 ≤ code) (hhi : code < 2 ^ 31) (hcode : code ≠ 0)
    (hreason : ∀ b ∈ reason, b ≠ CR ∧ b ≠ LF ∧ b ≠ NUL) :
    httpParseResponseLine p (statusText minor code reason) =
      ({ p with major := 1, minor := minor, responseCode := code, responseCodeLine := reason },
        true) := by
  have hline := cstr_eq_self fun b (hb : b ∈ statusText minor code reason) =>
    (mem_statusText hreason hb).2.2
  have hnumber := strsep_token (fun b (hb : b ∈ decimal code) => (mem_decimal hb).2.2.2.1) reason
  have hvalid : httpValidResponseCode code = true := by
    simpa [httpValidResponseCode] using hcode
  have hversion : (if protocol minor = str "HTTP/1.0" then some 0
      else if protocol minor = str "HTTP/1.1" then some 1 else none) = some minor := by
    rcases hminor with rfl | rfl <;> decide
  rw [httpParseResponseLine, hline, statusText, strsep_token fun b hb => (mem_protocol hb).1]
  simp only [hnumber, hversion, Option.getD_some, atoi_decimal hlo hhi, hvalid, if_true]

theorem statusLine_eq {cfg : WriteCfg} {q : HttpReq} (hmajor : q.major = 1) (hminor : q.minor ≤ 1)
    (hreason : ∀ b ∈ q.responseCodeLine, b ≠ CR ∧ b ≠ LF ∧ b ≠ NUL) :
    statusLine cfg q = statusText (sentMinor cfg q) q.responseCode q.responseCodeLine ++ CRLF := by
  have hm : sentMinor cfg q = 0 ∨ sentMinor cfg q = 1 := by
    rcases sentMinor_cases cfg hminor with h | h
    · exact .inr h.1
    · exact .inl h.1
  rw [statusLine, hmajor, protocol_eq hm, cstr_eq_self fun b hb => (hreason b hb).2.2, statusText]
  simp

/-- A field with a number for its value. -/
theorem fieldOk_decimal {name : Bytes} (n : Nat)
    (hname : Header.readable ⟨name, decimal (0 : Nat)⟩ = true) : FieldOk ⟨name, decimal n⟩ := by
  have hok := fieldOk_of_readable hname
  have hvalue : ∀ b ∈ decimal (n : Int), b ≠ NUL ∧ b ≠ CR ∧ b ≠ LF ∧ b ≠ SP ∧ b ≠ TAB ∧ b ≠ 58 :=
    fun b hb => mem_decimal hb
  refine ⟨hok.key, hok.keyText, hok.keyHead, decimal_ne_nil (n : Int), ?_, ?_⟩
  · intro b hb
    exact ⟨(hvalue b hb).2.1, (hvalue b hb).2.2.1, (hvalue b hb).1⟩
  · intro b hb
    obtain ⟨-, -, -, hsp, htab, -⟩ := hvalue b (List.mem_of_mem_head? hb)
    exact ⟨hsp, htab⟩

/-- The fields that the writing side generates can be read back. -/
theorem fieldOk_added {cfg : WriteCfg} {q : HttpReq} (hdate : FieldOk (dateHeader cfg)) :
    ∀ e ∈ added cfg q, FieldOk e := by
  have hlength : FieldOk (lengthHeader q) := fieldOk_decimal q.outputBody.length (by decide)
  have hfixed : ∀ h ∈ [typeHeader, keepAliveHeader, closeHeader], FieldOk h := by
    intro h hh
    have htext : ∀ h ∈ [typeHeader, keepAliveHeader, closeHeader], h.readable = true := by
      decide
    exact fieldOk_of_readable (htext h hh)
  intro e he
  simp only [added, List.mem_append] at he
  rcases he with (((he | he) | he) | he) | he
  · rw [mem_entryIf he]
    exact hdate
  · rw [mem_entryIf he]
    exact hfixed _ (by simp)
  · rw [mem_entryIf he]
    exact hlength
  · rw [mem_entryIf he]
    exact hfixed _ (by simp)
  · rw [mem_entryIf he]
    exact hfixed _ (by simp)

/-! ## Replies -/

/-- A dispatched request to which nothing has been written yet. -/
structure Answerable (q : HttpReq) : Prop where
  major   : q.major = 1
  minor   : q.minor ≤ 1
  headers : q.outputHeaders = initHeaders
  out     : q.outBuf.data = []
  body    : q.outputBody = []

/-- A request of the client side that waits for its response. -/
structure Asking (p : HttpReq) : Prop where
  kind     : p.kind = .response
  headers  : p.inputHeaders = initHeaders
  body     : p.inputBody = []
  readDone : p.readDone = 0

/-- A reply whose code, reason and fields can stand in a head. -/
structure ReplyOk (rep : Reply) : Prop where
  low     : -2 ^ 31 ≤ rep.code
  high    : rep.code < 2 ^ 31
  code    : rep.code ≠ 0
  reason  : ∀ b ∈ rep.reason, b ≠ CR ∧ b ≠ LF ∧ b ≠ NUL
  headers : ∀ h ∈ rep.headers, PlainField h
  fits    : rep.headers.length ≤ HEADER_NUM
  data    : rep.data.length < 2 ^ 63

/-- A reply whose code, reason and fields can stand in a head, whatever the fields are called. -/
structure Sendable (rep : Reply) : Prop where
  low     : -2 ^ 31 ≤ rep.code
  high    : rep.code < 2 ^ 31
  code    : rep.code ≠ 0
  reason  : ∀ b ∈ rep.reason, b ≠ CR ∧ b ≠ LF ∧ b ≠ NUL
  headers : ∀ h ∈ rep.headers, FieldOk h
  fits    : rep.headers.length ≤ HEADER_NUM
  data    : rep.data.length < 2 ^ 63

theorem ReplyOk.sendable {rep : Reply} (h : ReplyOk rep) : Sendable rep :=
  ⟨h.low, h.high, h.code, h.reason, fun x hx => (h.headers x hx).ok, h.fits, h.data⟩

/-- What `http_send_reply` puts into `req->out`. -/
def replyBytes (cfg : WriteCfg) (q : HttpReq) (rep : Reply) : Bytes :=
  (makeReply cfg (addReplyHeaders q rep.headers) rep).outBuf.data

/-- The table has a slot for the Content-Length that `http_make_response_header` adds. -/
def lengthFits (cfg : WriteCfg) (q : HttpReq) : Bool :=
  hasRoom q.outputHeaders ((addsDate cfg q).toNat + (addsKeepAlive cfg q).toNat)

/-- The client side has the reply: its code, its reason, its fields in front of those that were
generated, and its body. -/
structure ReadBack (cfg : WriteCfg) (q : HttpReq) (rep : Reply) (out : Reader × Verdict) : Prop where
  done    : out.2 = .done
  code    : out.1.req.responseCode = rep.code
  reason  : out.1.req.responseCodeLine = rep.reason
  version : out.1.req.major = 1 ∧ out.1.req.minor = sentMinor cfg q
  fields  : ∃ us, out.1.req.inputHeaders = tableOf (rep.headers ++ us)
  body    : out.1.req.inputBody = rep.data

/-- The request when `http_make_header` comes to it. -/
def answer (q : HttpReq) (rep : Reply) : HttpReq :=
  { q with
    outputHeaders := tableOf rep.headers, kind := .response, responseCode := rep.code
    responseCodeLine := rep.reason, userdone := true, outputBody := rep.data }

section Reply

variable {cfg : WriteCfg} {q : HttpReq} {rep : Reply}

theorem addReplyHeaders_answer (hq : Answerable q) (hrep : Sendable rep) :
    addReplyHeaders q rep.headers = { q with outputHeaders := tableOf rep.headers } := by
  rw [@addReplyHeaders_tableOf q [] rep.headers (fun x hx => by cases hx) hrep.headers
    (by simpa using hrep.fits) (hq.headers.trans tableOf_nil.symm), List.nil_append]

theorem makeReply_answer (hq : Answerable q) (hrep : Sendable rep) :
    makeReply cfg (addReplyHeaders q rep.headers) rep = httpMakeHeader cfg (answer q rep) := by
  rw [addReplyHeaders_answer hq hrep, makeReply, makeSend]
  simp only
  split
  · rename_i hnil
    have hbody := hq.body
    rw [answer, hnil, ← hbody]
    rfl
  · rfl

theorem lengthFits_answer (hq : Answerable q) (hrep : Sendable rep) :
    lengthFits cfg (addReplyHeaders q rep.headers) = lengthFits cfg (answer q rep) := by
  rw [addReplyHeaders_answer hq hrep]
  rfl

theorem holds_answer (hrep : Sendable rep) : Holds rep.headers (answer q rep) :=
  ⟨rfl, fun x hx => (hrep.headers x hx).free, hrep.fits⟩

/-- The fields of the head, in their order. -/
def replyFields (cfg : WriteCfg) (q : HttpReq) (rep : Reply) : List Header :=
  addFields rep.headers (added cfg (answer q rep))

theorem replyFields_ok (hrep : Sendable rep) (hdate : FieldOk (dateHeader cfg)) :
    ∀ e ∈ replyFields cfg q rep, FieldOk e := by
  intro e he
  rcases mem_addFields he with he | he
  · exact hrep.headers e he
  · exact fieldOk_added hdate e he

/-- The status line, the fields and an empty line. -/
def replyHead (cfg : WriteCfg) (q : HttpReq) (rep : Reply) : Bytes :=
  statusText (sentMinor cfg q) rep.code rep.reason ++ (CRLF ++
    (((replyFields cfg q rep).map fun h => fieldLine h ++ CRLF).flatten ++ CRLF))

/-- The bytes of a reply: its head and its body. -/
theorem replyBytes_eq (hq : Answerable q) (hrep : Sendable rep) (hdate : FieldOk (dateHeader cfg)) :
    replyBytes cfg q rep = replyHead cfg q rep ++ rep.data := by
  have hvalid : httpHeaderIsValidValue (cstr cfg.date) = true := by
    refine httpHeaderIsValidValue_quiet fun b hb => ?_
    have hb := hdate.valueText b ((List.takeWhile_prefix _).subset hb)
    exact isEol_false hb.1 hb.2.1
  have hsent : sentHeaders cfg (answer q rep) = tableOf (replyFields cfg q rep) :=
    sentHeaders_response (holds_answer hrep) rfl hq.major hvalid
  have hline : firstLine cfg (answer q rep) =
      statusText (sentMinor cfg q) rep.code rep.reason ++ CRLF :=
    statusLine_eq (q := answer q rep) hq.major hq.minor hrep.reason
  have hout : (answer q rep).outBuf.data = [] := hq.out
  rw [replyBytes, makeReply_answer hq hrep, httpMakeHeader_message cfg hout, head, hline, hsent,
    headerLine_tableOf (replyFields_ok hrep hdate)]
  simp [answer, replyHead]

/-- What the client side knows when it has read the head. -/
def told (cfg : WriteCfg) (q : HttpReq) (rep : Reply) (p : HttpReq) : HttpReq :=
  { p.fresh with
    major := 1, minor := sentMinor cfg q, responseCode := rep.code
    responseCodeLine := rep.reason, inputHeaders := tableOf (replyFields cfg q rep) }

theorem replyHead_accepted {p : HttpReq} (hq : Answerable q) (hp : Asking p) (hrep : Sendable rep)
    (hdate : FieldOk (dateHeader cfg)) (rest : Bytes) :
    feedHead .readingFirstline p.fresh (replyHead cfg q rep ++ rest) =
      .stop (.accepted (told cfg q rep p)) rest := by
  have hm : sentMinor cfg q = 0 ∨ sentMinor cfg q = 1 := by
    rcases sentMinor_cases cfg hq.minor with h | h
    · exact .inr h.1
    · exact .inl h.1
  have hparse : parseFirstline p.fresh (statusText (sentMinor cfg q) rep.code rep.reason) =
      ({ p.fresh with
          major := 1, minor := sentMinor cfg q, responseCode := rep.code
          responseCodeLine := rep.reason }, true) := by
    rw [parseFirstline, show p.fresh.kind = .response from hp.kind]
    exact httpParseResponseLine_statusText p.fresh hm hrep.low hrep.high hrep.code hrep.reason
  have hline : ∀ b ∈ statusText (sentMinor cfg q) rep.code rep.reason, b ≠ CR ∧ b ≠ LF :=
    fun b hb => ⟨(mem_statusText hrep.reason hb).1, (mem_statusText hrep.reason hb).2.1⟩
  rw [replyHead, List.append_assoc, List.append_assoc, List.append_assoc,
    feedHead_head hline hparse hp.headers (replyFields_ok hrep hdate)
      (addFields_length hrep.fits _)]
  rfl

theorem added_coding {e : Header} (he : e ∈ added cfg q) :
    e.named (str "Transfer-Encoding") = false := by
  simp only [added, List.mem_append] at he
  rcases he with (((he | he) | he) | he) | he <;> rw [mem_entryIf he] <;> rfl

/-- The Content-Length that the client side finds when none of the given fields passes for one. -/
theorem find_told_length {p : HttpReq} (hrep : Sendable rep)
    (hnone : ∀ h ∈ rep.headers, h.named (str "Content-Length") = false) :
    httpFindHeader (told cfg q rep p).inputHeaders (str "Content-Length") =
      if (addsLength (answer q rep) && lengthFits cfg (answer q rep)) = true then
        some (decimal rep.data.length)
      else none := by
  have hplain : ∀ e ∈ entryIf (addsDate cfg (answer q rep)) (dateHeader cfg) ++
      entryIf (addsKeepAlive cfg (answer q rep)) keepAliveHeader,
      e.named (str "Content-Length") = false := by
    intro e he
    rcases List.mem_append.1 he with he | he <;> rw [mem_entryIf he] <;> rfl
  show httpFindHeader (tableOf (addFields rep.headers (added cfg (answer q rep)))) _ = _
  by_cases hadds : addsLength (answer q rep) = true
  · have hadded : ∃ post, added cfg (answer q rep) =
        (entryIf (addsDate cfg (answer q rep)) (dateHeader cfg) ++
          entryIf (addsKeepAlive cfg (answer q rep)) keepAliveHeader) ++
            lengthHeader (answer q rep) :: post := by
      refine ⟨entryIf (addsType (answer q rep)) typeHeader ++
        entryIf (addsClose cfg (answer q rep)) closeHeader, ?_⟩
      simp [added, hadds, entryIf]
    obtain ⟨post, hadded⟩ := hadded
    rw [hadded, find_length hrep.fits hnone hplain rfl, lengthFits,
      hasRoom_tableOf (holds_answer hrep), List.length_append, entryIf_length, entryIf_length,
      show cstr (lengthHeader (answer q rep)).value = decimal rep.data.length from
        cstr_eq_self fun b hb => (mem_decimal (v := rep.data.length) hb).1, hadds]
    simp
  · rw [Bool.not_eq_true] at hadds
    rw [hadds, Bool.false_and, if_neg Bool.false_ne_true, httpFindHeader_tableOf, httpFindHeader,
      find_none_of_unnamed fun e he => ?_]
    · rfl
    · rcases mem_addFields he with he | he
      · exact hnone e he
      · simp only [added, hadds, entryIf_false, List.append_nil] at he
        rcases List.mem_append.1 he with he | he
        · rcases List.mem_append.1 he with he | he
          · exact hplain e he
          · rw [mem_entryIf he]
            rfl
        · rw [mem_entryIf he]
          rfl

theorem not_exist_of_unnamed {hs : List Header} {name : Bytes}
    (h : ∀ e ∈ hs, e.named name = false) : httpExistHeader (tableOf hs) name = false := by
  rw [httpExistHeader_tableOf, httpExistHeader, List.any_eq_false]
  intro e he
  simp [h e he]

/-- The body length that the client side takes from the head. -/
theorem told_length {p : HttpReq} (hrep : ReplyOk rep) :
    httpGetBodyLength (told cfg q rep p) =
      if rep.data ≠ [] ∧ lengthFits cfg (answer q rep) = true then some rep.data.length else none := by
  have hadds : addsLength (answer q rep) = true := by
    rw [addsLength, show (answer q rep).outputHeaders = tableOf rep.headers from rfl,
      not_exist_of_unnamed fun h hh => (hrep.headers h hh).coding,
      not_exist_of_unnamed fun h hh => (hrep.headers h hh).length]
    rfl
  have hfind := @find_told_length cfg q rep p hrep.sendable
    fun h hh => (hrep.headers h hh).length
  rw [hadds, Bool.true_and] at hfind
  by_cases hroom : lengthFits cfg (answer q rep) = true
  · rw [if_pos hroom] at hfind
    rw [httpGetBodyLength_decimal hrep.data hfind]
    simp [hroom]
  · rw [if_neg hroom] at hfind
    rw [httpGetBodyLength, hfind, if_neg fun h => hroom h.2]

theorem told_not_chunked {p : HttpReq} (hrep : ReplyOk rep) :
    httpIsChunked (told cfg q rep p) = false := by
  refine not_chunked rfl fun e he => ?_
  rcases mem_addFields he with he | he
  · exact (hrep.headers e he).coding
  · exact added_coding he

/-- What was told, with the whole body, is the reply. -/
theorem readBack_of_told {p : HttpReq} (hrep : Sendable rep) {out : Reader × Verdict}
    (hdone : out.2 = .done) (hsaid : out.1.req.said = (told cfg q rep p).said)
    (hbody : out.1.req.inputBody = rep.data) : ReadBack cfg q rep out := by
  have hfields : ∃ us, tableOf (replyFields cfg q rep) = tableOf (rep.headers ++ us) := by
    rw [replyFields, addFields_eq hrep.fits]
    exact ⟨_, rfl⟩
  simp only [HttpReq.said, told, Prod.mk.injEq] at hsaid
  obtain ⟨-, -, hmajor, hminor, hcode, hreason, hheaders⟩ := hsaid
  exact ⟨hdone, hcode, hreason, ⟨hmajor, hminor⟩, hheaders ▸ hfields, hbody⟩

theorem needsBody_told {p : HttpReq} (hp : Asking p) :
    needsBody (told cfg q rep p).kind (told cfg q rep p) = !bodyless rep.code := by
  rw [show (told cfg q rep p).kind = .response from hp.kind]
  rfl

/-- **A reply comes through if and only if it has a body and a slot for its length, or its code
leaves no room for a body and it has none.** -/
theorem reply_read_iff (cfg : WriteCfg) (q p : HttpReq) (rep : Reply) (cs : List Bytes)
    (hq : Answerable q) (hp : Asking p) (hrep : ReplyOk rep) (hdate : FieldOk (dateHeader cfg))
    (hfits : (replyBytes cfg q rep).length ≤ HEADER_SZ + rep.data.length)
    (hcs : cs.flatten = replyBytes cfg q rep)
    (hcuts : CutsOk isEol headAct ⟨.readingFirstline, p.fresh⟩ cs) :
    ReadBack cfg q rep (readRun p cs) ↔
      if bodyless rep.code then rep.data = []
      else rep.data ≠ [] ∧ lengthFits cfg (addReplyHeaders q rep.headers) = true := by
  have hhead : feedHead .readingFirstline p.fresh cs.flatten =
      .stop (.accepted (told cfg q rep p)) rep.data := by
    rw [hcs, replyBytes_eq hq hrep.sendable hdate]
    exact replyHead_accepted hq hp hrep.sendable hdate rep.data
  have hfit : HeadFits p cs.flatten := by
    rw [hcs, replyBytes_eq hq hrep.sendable hdate]
    exact headFits_accepted (replyHead_accepted hq hp hrep.sendable hdate)
      (head_fits (replyBytes_eq hq hrep.sendable hdate) hfits) rep.data
  rw [lengthFits_answer hq hrep.sendable]
  by_cases hless : bodyless rep.code = true
  · have hnone : needsBody (told cfg q rep p).kind (told cfg q rep p) = false := by
      rw [needsBody_told hp, hless]
      rfl
    obtain ⟨hdone, hsaid, hbody⟩ := readRun_bodyless hhead hfit hcuts hnone
    have hempty : (told cfg q rep p).inputBody = [] := hp.body
    rw [if_pos hless]
    constructor
    · intro h
      rw [← h.body, hbody, hempty]
    · intro hnil
      exact readBack_of_told hrep.sendable hdone hsaid (by rw [hbody, hempty, hnil])
  · have hneeds : needsBody (told cfg q rep p).kind (told cfg q rep p) = true := by
      rw [needsBody_told hp]
      simpa using hless
    have hlength := @told_length cfg q rep p hrep
    rw [if_neg hless]
    by_cases hcond : rep.data ≠ [] ∧ lengthFits cfg (answer q rep) = true
    · rw [if_pos hcond] at hlength
      obtain ⟨hdone, hsaid, hbody⟩ := readRun_body hhead hfit hcuts hneeds (told_not_chunked hrep)
        hlength hp.body hp.readDone
      exact iff_of_true (readBack_of_told hrep.sendable hdone hsaid hbody) hcond
    · rw [if_neg hcond] at hlength
      have hfail := readRun_refused hhead hfit hcuts hneeds (.inr hlength)
      refine iff_of_false (fun h => ?_) hcond
      rw [h.done] at hfail
      cases hfail

end Reply

/-- A reply with one field, cut inside its date. -/
theorem reply_read_two :
    let cfg : WriteCfg := { date := str "Mon, 28 Sep 2026 10:00:00 GMT" }
    let q : HttpReq := { major := 1, minor := 1 }
    let p : HttpReq := { kind := .response }
    let rep : Reply := { headers := [⟨str "X-Kind", str "a: b"⟩], data := str "two\r\n\r\nlines" }
    let bytes := replyBytes cfg q rep
    ReadBack cfg q rep (readRun p [bytes.take 25, bytes.drop 25]) := by
  intro cfg q p rep bytes
  have hq : Answerable q := ⟨rfl, Nat.le_refl 1, rfl, rfl, rfl⟩
  have hp : Asking p := ⟨rfl, rfl, rfl, rfl⟩
  have hfield : PlainField ⟨str "X-Kind", str "a: b"⟩ :=
    ⟨fieldOk_of_readable (by decide), by decide, by decide⟩
  have hrep : ReplyOk rep :=
    ⟨by decide, by decide, by decide, forall_mem_of_all (by decide),
      fun h hh => by rwa [List.mem_singleton.1 hh], by decide, by decide⟩
  have hdate : FieldOk (dateHeader cfg) := fieldOk_of_readable (by decide)
  have hwhole : [bytes.take 25, bytes.drop 25].flatten = bytes := by simp
  have hcut : CutOk isEol (bytes.take 25) (bytes.drop 25) := cutOk_of_badCut (by decide)
  exact (reply_read_iff cfg q p rep _ hq hp hrep hdate (by decide +kernel) hwhole
    (cutsOk_pair fun _ => hcut)).2 (by decide)

end Http
end Shs
