import Shs.Core.Buffer
import Shs.Lib.LineStream

/-!
# Http.Request

`http_req_t` and the functions of `http.cc` that read and write nothing but a request: the header
tables, the line reader, the parsers of the first line and of the headers, and the body length.

A request also carries two fields the source does not have: `live`, which is false once
`http_request_free` has run, and `rx`, every byte that `conn_recv` has stored for this request. Its
position in the heap is its name elsewhere.
-/

namespace Shs
namespace Http

/-- `enum HTTP_CODE`. -/
inductive HttpCode where
  | ok | invalidHeader | invalidBody | readTimeout | readEof | writeTimeout | writeEof
  | connectTimeout | connectFail | invalidSocket | callerError
  deriving DecidableEq, Repr

/-- `enum HTTP_READ_STATUS`, without the `REQUEST_CANCELED` that nothing returns. -/
inductive ReadStatus where
  | allDataRead | moreDataExpected | dataCorrupted
  deriving DecidableEq, Repr

/-- `SHS_HTTP_REQ_TYPE`. -/
inductive ReqType where
  | get | post | head
  deriving DecidableEq, Repr

/-- `SHS_HTTP_REQUEST_KIND`. -/
inductive Kind where
  | request | response
  deriving DecidableEq, Repr

/-- The functions `req->cb` points to. -/
inductive ReqCb where
  | httpHandleRequest | handlerResponse
  deriving DecidableEq, Repr

def HEADER_SZ : Nat := 4096
def HEADER_NUM : Nat := 35
def CONN_DEFAULT_RCVBUF : Nat := 65536

structure Header where
  key : Bytes
  value : Bytes
  deriving DecidableEq, Repr

/-- `string_null` as key and value: an unused slot of a header table. -/
def Header.null : Header := ⟨[], []⟩

def initHeaders : List Header := List.replicate HEADER_NUM Header.null

structure HttpReq where
  live : Bool := false
  hc : Option Nat := none
  inBuf : Buffer := bufferCreate CONN_DEFAULT_RCVBUF
  outBuf : Buffer := bufferCreate HEADER_SZ
  uri : Bytes := []
  inputBody : Bytes := []
  outputBody : Bytes := []
  responseCodeLine : Bytes := []
  inputHeaders : List Header := initHeaders
  outputHeaders : List Header := initHeaders
  kind : Kind := .request
  type : ReqType := .get
  cb : Option ReqCb := none
  major : Nat := 0
  minor : Nat := 0
  responseCode : Int := 0
  ntoread : Nat := 0
  readDone : Nat := 0
  userdone : Bool := false
  rx : Bytes := []
  deriving DecidableEq, Repr

/-! ## Header tables -/

/-- The slot test of the header functions: `0 == key.len && 0 == value.len`. -/
def Header.free (h : Header) : Bool := h.key.isEmpty && h.value.isEmpty

/-- The entry goes into the first free slot; a full table stays as it is. -/
def fillSlot (h : Header) : List Header → List Header
  | [] => []
  | s :: ss => if s.free then h :: ss else s :: fillSlot h ss

/-- `http_header_is_valid_value`, on the C string of the value: behind every run of CR and LF
stands a blank or a tab. -/
def httpHeaderIsValidValue : Bytes → Bool
  | [] => true
  | [x] => !isEol x
  | x :: y :: ys =>
    if isEol x && !isEol y && y != SP && y != TAB then false
    else httpHeaderIsValidValue (y :: ys)

/-- The checks and the slot search that `http_add_input_header` and `http_add_output_header`
share; `none` is the return value -1. -/
def addHeader (key value : Bytes) (hs : List Header) : Option (List Header) :=
  if key.any isEol || !httpHeaderIsValidValue (cstr value) then none
  else some (fillSlot ⟨key, value⟩ hs)

def httpAddInputHeader (q : HttpReq) (key value : Bytes) : Option HttpReq :=
  (addHeader key value q.inputHeaders).map fun hs => { q with inputHeaders := hs }

/-- `http_add_output_header`; no caller looks at its result. -/
def httpAddOutputHeader (q : HttpReq) (key value : Bytes) : HttpReq :=
  { q with outputHeaders := (addHeader key value q.outputHeaders).getD q.outputHeaders }

/-- `0 != key.len && 0 == strncasecmp(key.data, name, name.size())`. -/
def Header.named (name : Bytes) (h : Header) : Bool :=
  !h.key.isEmpty && strncasecmpEq name.length (cstr h.key) name

/-- `http_find_header`: the value, read as a C string. -/
def httpFindHeader (hs : List Header) (name : Bytes) : Option Bytes :=
  (hs.find? (Header.named name)).map fun h => cstr h.value

def httpExistHeader (hs : List Header) (name : Bytes) : Bool := hs.any (Header.named name)

def httpIsConnectionClose (hs : List Header) : Bool :=
  match httpFindHeader hs (str "Connection") with
  | some v => strncasecmpEq 5 v (str "close")
  | none => false

def httpIsConnectionKeepalive (hs : List Header) : Bool :=
  match httpFindHeader hs (str "Connection") with
  | some v => strncasecmpEq 10 v (str "keep-alive")
  | none => false

/-! ## Lines -/

/-- `buffer_readline`: the bytes before the first CR or LF, and the request with that line and
its terminator taken off the input buffer. -/
def bufferReadline (q : HttpReq) : Option (Bytes × HttpReq) :=
  match LineStream.takeLine isEol q.inBuf.data with
  | none => none
  | some (line, rest) =>
    some (line, { q with inBuf := bufferPull q.inBuf (q.inBuf.data.length - rest.length) })

/-- `http_parse_request_line`, with false for the return value -1. -/
def httpParseRequestLine (q : HttpReq) (line : Bytes) : HttpReq × Bool :=
  match strsep SP (cstr line) with
  | (_, none) => (q, false)
  | (method, some line) =>
    match strsep SP line with
    | (_, none) => (q, false)
    | (uri, some line) =>
      match strsep SP line with
      | (_, some _) => (q, false)
      | (version, none) =>
        let type? : Option ReqType :=
          if method = str "GET" then some .get
          else if method = str "POST" then some .post
          else if method = str "HEAD" then some .head
          else none
        match type? with
        | none => (q, false)
        | some type =>
          if version = str "HTTP/1.0" then
            ({ q with type := type, major := 1, minor := 0, uri := uri }, true)
          else if version = str "HTTP/1.1" then
            ({ q with type := type, major := 1, minor := 1, uri := uri }, true)
          else ({ q with type := type }, false)

def httpValidResponseCode (code : Int) : Bool := code != 0

/-- `http_parse_response_line`, with false for the return value -1. -/
def httpParseResponseLine (q : HttpReq) (line : Bytes) : HttpReq × Bool :=
  match strsep SP (cstr line) with
  | (_, none) => (q, false)
  | (protocol, some line) =>
    let number := (strsep SP line).1
    let readable := ((strsep SP line).2).getD []
    let minor? : Option Nat :=
      if protocol = str "HTTP/1.0" then some 0
      else if protocol = str "HTTP/1.1" then some 1
      else none
    match minor? with
    | none => (q, false)
    | some minor =>
      let q := { q with major := 1, minor := minor, responseCode := atoi number }
      if httpValidResponseCode q.responseCode then
        ({ q with responseCodeLine := readable }, true)
      else (q, false)

/-- The switch of `http_parse_firstline` on the kind of the message. -/
def parseFirstline (q : HttpReq) (line : Bytes) : HttpReq × Bool :=
  match q.kind with
  | .request => httpParseRequestLine q line
  | .response => httpParseResponseLine q line

def httpParseFirstline (q : HttpReq) : HttpReq × ReadStatus :=
  match bufferReadline q with
  | none => (q, .moreDataExpected)
  | some (line, q) =>
    match parseFirstline q line with
    | (q, true) => (q, .allDataRead)
    | (q, false) => (q, .dataCorrupted)

/-- `http_append_to_last_input_header`: the value of the entry before the first free slot (of
entry 0 when no slot is free) gets the line and a NUL behind it, and its length counts the NUL. -/
def httpAppendToLastInputHeader (q : HttpReq) (line : Bytes) : Option HttpReq :=
  match q.inputHeaders with
  | [] => none
  | h0 :: _ =>
    if h0.free then none
    else
      let n := q.inputHeaders.findIdx Header.free
      let last := if n < q.inputHeaders.length then n - 1 else 0
      some { q with inputHeaders := q.inputHeaders.modify last fun h =>
        { h with value := h.value ++ line ++ [NUL] } }

/-- What the loop of `http_parse_headers` does with one line, given as the C string it is there:
go on, end of the headers, or an error. -/
inductive LineResult where
  | go (q : HttpReq)
  | done
  | bad

def parseHeaderLine (q : HttpReq) (line : Bytes) : LineResult :=
  match line with
  | [] => .done
  | c :: _ =>
    if c = SP ∨ c = TAB then
      match httpAppendToLastInputHeader q line with
      | some q => .go q
      | none => .bad
    else
      match strsep 58 line with
      | (_, none) => .bad
      | (skey, some svalue) =>
        match httpAddInputHeader q skey (svalue.dropWhile (· == SP)) with
        | some q => .go q
        | none => .bad

/-- The loop of `http_parse_headers`, for at most `n` lines. -/
def parseHeadersN : Nat → HttpReq → HttpReq × ReadStatus
  | 0, q => (q, .moreDataExpected)
  | n + 1, q =>
    match bufferReadline q with
    | none => (q, .moreDataExpected)
    | some (line, q) =>
      match parseHeaderLine q (cstr line) with
      | .go q => parseHeadersN n q
      | .done => (q, .allDataRead)
      | .bad => (q, .dataCorrupted)

/-- `http_parse_headers`; every line takes at least one byte off the buffer. -/
def httpParseHeaders (q : HttpReq) : HttpReq × ReadStatus :=
  parseHeadersN q.inBuf.data.length q

/-! ## The body -/

/-- `http_get_body_length`; `none` is the return value -1. Without a Content-Length all three of
its tests on the Connection header fail the request. -/
def httpGetBodyLength (q : HttpReq) : Option Nat :=
  match httpFindHeader q.inputHeaders (str "Content-Length") with
  | none => none
  | some contentLength =>
    let (ntoread, endp) := strtoll contentLength
    if contentLength = [] ∨ endp ≠ [] ∨ ntoread ≤ 0 then none else some ntoread.toNat

/-- The Transfer-Encoding test of `http_get_body`. -/
def httpIsChunked (q : HttpReq) : Bool :=
  match httpFindHeader q.inputHeaders (str "Transfer-Encoding") with
  | some v => strncasecmpEq 7 v (str "chunked")
  | none => false

example : httpFindHeader [⟨str "HOST", str "a"⟩, ⟨str "Content-Length", str "12"⟩]
    (str "Content-Length") = some (str "12") := by decide

end Http
end Shs
