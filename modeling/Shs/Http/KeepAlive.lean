import Shs.Http.RoundTrip
import Shs.Http.Section

/-!
# Http.KeepAlive

What the bytes of a response say about the connection, and what `http_send_done` then does with
it. The first is what a client takes from the bytes, with the version of the status line and the
fields that the parser of the header lines makes of the rest; the second is `needClose`. The
module finds the requests and output headers on which they agree.
-/

namespace Shs
namespace Http

open LineStream

/-! ## What a response says -/

/-- The text without the blanks around it. -/
def trim (s : Bytes) : Bytes :=
  ((s.dropWhile fun b => b == SP || b == TAB).reverse.dropWhile fun b => b == SP || b == TAB).reverse

/-- The entry is a Connection field with the option among its comma-separated options. -/
def Header.connection (option : Bytes) (h : Header) : Bool :=
  h.called (str "Connection") &&
    ((cstr h.value).splitOn 44).any fun o => sameText (trim o) option

def hasConnection (option : Bytes) (hs : List Header) : Bool := hs.any (Header.connection option)

/-- A client that waits for a response. -/
def client : HttpReq := { kind := .response }

/-- One line of a response, for a client that takes any code: of the status line only the version
counts, and behind it stand the lines of `http_parse_headers`. -/
def clientAct (s : HeadState) (line : Bytes) : HeadState ⊕ HeadEnd :=
  match s.status with
  | .readingFirstline =>
    let protocol := (strsep SP (cstr line)).1
    if protocol = str "HTTP/1.0" then .inl ⟨.readingHeaders, { s.req with minor := 0 }⟩
    else if protocol = str "HTTP/1.1" then .inl ⟨.readingHeaders, { s.req with minor := 1 }⟩
    else .inr (.rejected .readingFirstline s.req)
  | _ => headAct s line

/-- What the client has of a response when it has read these bytes. -/
def heard (bytes : Bytes) : HeadOut := feed isEol clientAct ⟨.readingFirstline, client⟩ bytes

/-- The head says that the connection stays open. -/
def staysOpen (p : HttpReq) : Bool :=
  p.minor == 1 && !hasConnection (str "close") p.inputHeaders ||
    p.minor == 0 && hasConnection (str "keep-alive") p.inputHeaders

/-- The bytes begin with a head, and it says that the connection stays open. -/
def tellsOpen (bytes : Bytes) : Bool :=
  match heard bytes with
  | .stop (.accepted p) _ => staysOpen p
  | _ => false

/-- The name of a header may reach into what is read as its value. -/
example : tellsOpen (str "HTTP/1.1 200 OK\r\nConnection: close,: x\r\n\r\n") = false := by
  decide +kernel

/-- Behind a response the connection is kept exactly when the bytes of the response say so. -/
def Agrees (cfg : WriteCfg) (out : HttpReq) : Prop :=
  needClose cfg out = false ↔ tellsOpen out.outBuf.data = true

/-! ## Connection fields among the entries -/

theorem connection_named {option : Bytes} {h : Header} (hc : h.connection option = true) :
    h.named (str "Connection") = true :=
  named_of_called (by decide) (by decide) (Bool.and_eq_true_iff.1 hc).1

theorem hasConnection_unnamed (option : Bytes) {hs : List Header}
    (h : ∀ e ∈ hs, e.named (str "Connection") = false) : hasConnection option hs = false := by
  rw [hasConnection, List.any_eq_false]
  intro e he hc
  have hno := h e he
  rw [connection_named hc] at hno
  cases hno

theorem hasConnection_append (option : Bytes) (hs hs' : List Header) :
    hasConnection option (hs ++ hs') = (hasConnection option hs || hasConnection option hs') :=
  List.any_append

/-- One Connection entry among those that are added, on a table with a slot for it or without. -/
structure OneConnection (es pre : List Header) (c : Header) : Prop where
  split : ∃ post, es = pre ++ c :: post ∧ ∀ e ∈ post, e.named (str "Connection") = false
  front : ∀ e ∈ pre, e.named (str "Connection") = false
  named : c.named (str "Connection") = true

theorem OneConnection.take {es pre : List Header} {c : Header} (h : OneConnection es pre c)
    (option : Bytes) (n : Nat) :
    hasConnection option (es.take n) = (decide (pre.length < n) && c.connection option) := by
  obtain ⟨post, rfl, hpost⟩ := h.split
  have htake := hasConnection_unnamed option
    fun e he => hpost e (List.mem_of_mem_take (i := n - pre.length - 1) he)
  have hfront := hasConnection_unnamed option
    fun e he => h.front e (List.mem_of_mem_take (i := n) he)
  rw [take_middle]
  split
  · rename_i hroom
    rw [hasConnection_append, hasConnection_unnamed option h.front, Bool.false_or, hasConnection,
      List.any_cons, ← hasConnection, htake, Bool.or_false, decide_eq_true hroom, Bool.true_and]
  · rename_i hroom
    rw [hfront, decide_eq_false hroom, Bool.false_and]

theorem OneConnection.find {es pre us : List Header} {c : Header} (h : OneConnection es pre c)
    (hl : us.length ≤ HEADER_NUM) :
    httpFindHeader (tableOf (addFields us es)) (str "Connection") =
      (httpFindHeader us (str "Connection")).or
        (if us.length + pre.length < HEADER_NUM then some (cstr c.value) else none) := by
  obtain ⟨post, rfl, hpost⟩ := h.split
  rw [httpFindHeader_tableOf, addFields_eq hl, take_middle, httpFindHeader, httpFindHeader,
    List.find?_append, Option.map_or]
  congr 1
  by_cases hroom : us.length + pre.length < HEADER_NUM
  · rw [if_pos (by omega), if_pos hroom, List.find?_append, find_none_of_unnamed h.front,
      Option.none_or, List.find?_cons, h.named]
    rfl
  · rw [if_neg (by omega), if_neg hroom,
      find_none_of_unnamed fun e he => h.front e (List.mem_of_mem_take he)]
    rfl

/-- How many entries `http_make_response_header` adds in front of `Connection: close`. -/
def generated (cfg : WriteCfg) (q : HttpReq) : Nat :=
  (addsDate cfg q).toNat + (addsLength q).toNat + (addsType q).toNat

/-- The part of `http_send_done` that does not look at the output headers: the request asks for
the close, or is of version 1.0 without keep-alive, or of version 1.1 with keep-alive disabled. -/
def closesAnyway (cfg : WriteCfg) (q : HttpReq) : Bool :=
  httpIsConnectionClose q.inputHeaders ||
    (q.minor == 0 && !httpIsConnectionKeepalive q.inputHeaders) ||
    (q.minor == 1 && cfg.disableHttpKeepalive)

/-- The connection is closed behind the response. -/
def serverCloses (cfg : WriteCfg) (q : HttpReq) : Bool :=
  closesAnyway cfg q ||
    if cfg.disableHttpKeepalive && !httpExistHeader q.outputHeaders (str "Connection") then
      hasRoom q.outputHeaders (generated cfg q)
    else httpIsConnectionClose q.outputHeaders

/-- Both tables have a slot for an entry behind `n` others. -/
def slot (hs hs' : List Header) (n : Nat) : Bool := hasRoom hs n && hasRoom hs' n

/-- What the handler has put in front of the entries that `http_make_response_header` adds. -/
def opening (cfg : WriteCfg) (q : HttpReq) : Bytes :=
  statusLine cfg q ++ (q.outputHeaders.map headerLine).flatten

/-- The fields `hs` that the client makes of the opening say what the server does, with those that
are added. -/
def EntriesOk (cfg : WriteCfg) (q : HttpReq) (hs : List Header) : Prop :=
  if closesAnyway cfg q then
    if sentMinor cfg q = 1 then
      hasConnection (str "close") hs = true ∨ slot q.outputHeaders hs (generated cfg q) = true
    else hasConnection (str "keep-alive") hs = false
  else if sentMinor cfg q = 1 then
    httpIsConnectionClose q.outputHeaders = hasConnection (str "close") hs
  else if cfg.disableHttpKeepalive then
    (if httpExistHeader q.outputHeaders (str "Connection") then
      httpIsConnectionClose q.outputHeaders
    else hasRoom q.outputHeaders (generated cfg q)) = !hasConnection (str "keep-alive") hs
  else
    httpIsConnectionClose q.outputHeaders = false ↔
      hasConnection (str "keep-alive") hs = true ∨ slot q.outputHeaders hs 0 = true

/-- The requests, with the headers that the handler has put in the output table, whose response
says what the server does. A header of the handler can end the head, or spoil it, before the
entries that are added. -/
def ModeOk (cfg : WriteCfg) (q : HttpReq) : Prop :=
  match heard (opening cfg q) with
  | .more s _ => EntriesOk cfg q s.req.inputHeaders
  | .stop (.accepted p) _ => serverCloses cfg q = !staysOpen p
  | .stop (.rejected _ _) _ => serverCloses cfg q = true

section Mode

variable {cfg : WriteCfg} {q : HttpReq} {us : List Header}

theorem clientAct_status {s s' : HeadState} {line : Bytes} (h : clientAct s line = .inl s') :
    s'.status = .readingHeaders := by
  simp only [clientAct, headAct] at h
  repeat' split at h
  all_goals cases h
  all_goals rfl

/-- Behind the status line the client reads with `headAct`. -/
theorem heard_headers (p : HttpReq) (d : Bytes) :
    feed isEol clientAct ⟨.readingHeaders, p⟩ d = feedHead .readingHeaders p d := by
  refine feed_same isEol headAct (I := fun s => s.status = .readingHeaders) ?_ ?_ rfl d
  · intro s l s' hs h
    have hact : clientAct s l = .inl s' := by rw [← h, clientAct, hs]
    exact clientAct_status hact
  · intro s l hs
    rw [clientAct, hs]

/-- A table whose entries stand in front of its free slots. -/
structure Filled (vs hs : List Header) : Prop where
  table : hs = tableOf vs
  used  : ∀ x ∈ vs, x.free = false
  fits  : vs.length ≤ HEADER_NUM

theorem Filled.fillSlot {vs hs : List Header} (h : Filled vs hs) (x : Header) :
    ∃ vs', Filled vs' (fillSlot x hs) := by
  by_cases hx : x.free = true
  · exact ⟨vs, by rw [free_iff.1 hx, fillSlot_null, h.table], h.used, h.fits⟩
  · refine ⟨addField x vs, by rw [h.table, fillSlot_tableOf x h.used], ?_, addField_length h.fits⟩
    intro y hy
    rcases addField_mem hy with hy | rfl
    · exact h.used y hy
    · simpa using hx

theorem Filled.appendLast {vs hs hs' : List Header} (h : Filled vs hs) {l : Bytes}
    (happ : appendLast hs l = some hs') : ∃ vs', Filled vs' hs' := by
  have hne : vs ≠ [] := by
    rintro rfl
    rw [h.table] at happ
    cases happ
  rw [h.table, appendLast_tableOf hne h.used h.fits] at happ
  refine ⟨_, (Option.some.inj happ).symm, ?_, by rw [List.length_modify]; exact h.fits⟩
  intro x hx
  obtain ⟨i, hi⟩ := List.getElem?_of_mem hx
  rw [List.getElem?_modify] at hi
  obtain ⟨y, hy, rfl⟩ := Option.map_eq_some_iff.1 hi
  generalize (if vs.length < HEADER_NUM then vs.length - 1 else 0) = k
  by_cases hk : k = i
  · simp [hk, Header.free, Header.grow]
  · rw [if_neg hk]
    exact h.used y (List.mem_of_getElem? hy)

theorem Filled.line {vs : List Header} {p p' : HttpReq} {l : Bytes} (h : Filled vs p.inputHeaders)
    (hgo : parseHeaderLine p l = .go p') : ∃ vs', Filled vs' p'.inputHeaders := by
  unfold parseHeaderLine at hgo
  split at hgo
  · cases hgo
  · split at hgo
    · split at hgo
      · rename_i p₁ hp₁
        cases hgo
        rw [httpAppendToLastInputHeader_eq] at hp₁
        obtain ⟨hs, hhs, rfl⟩ := Option.map_eq_some_iff.1 hp₁
        exact h.appendLast hhs
      · cases hgo
    · split at hgo
      · cases hgo
      · split at hgo
        · rename_i p₁ hp₁
          cases hgo
          obtain ⟨hs, hhs, rfl⟩ := Option.map_eq_some_iff.1 hp₁
          unfold addHeader at hhs
          split at hhs
          · cases hhs
          · obtain rfl := Option.some.inj hhs
            exact h.fillSlot _
        · cases hgo

/-- Behind a status line of version 1.`m`. -/
structure Behind (m : Nat) (s : HeadState) : Prop where
  status : s.status = .readingHeaders
  minor  : s.req.minor = m
  table  : ∃ vs, Filled vs s.req.inputHeaders

theorem Behind.act {m : Nat} {s s' : HeadState} {l : Bytes} (h : Behind m s)
    (hact : clientAct s l = .inl s') : Behind m s' := by
  obtain ⟨vs, hvs⟩ := h.table
  have hstatus := clientAct_status hact
  simp only [clientAct, headAct, h.status] at hact
  split at hact
  · rename_i p hgo
    obtain rfl := Sum.inl.inj hact
    obtain ⟨hs, rfl⟩ := parseHeaderLine_table hgo
    exact ⟨hstatus, h.minor, hvs.line hgo⟩
  · cases hact
  · cases hact

theorem clientAct_statusLine {m : Nat} (hm : m = 0 ∨ m = 1) (l : Bytes) :
    clientAct ⟨.readingFirstline, client⟩ (protocol m ++ SP :: l) =
      .inl ⟨.readingHeaders, { client with minor := m }⟩ := by
  have hline : cstr (protocol m ++ SP :: l) = protocol m ++ SP :: cstr l := by
    rw [cstr, List.takeWhile_append_of_pos fun b hb => by simpa using (mem_protocol hb).2.2.2]
    rfl
  rw [clientAct]
  simp only [hline, strsep_token fun b hb => (mem_protocol hb).1]
  rcases hm with rfl | rfl
  · rw [if_pos (by decide)]
  · rw [if_neg (by decide), if_pos (by decide)]

/-- The entries that are added and get a slot. -/
def fresh (cfg : WriteCfg) (q : HttpReq) (us : List Header) : List Header :=
  (added cfg q).take (HEADER_NUM - us.length)

/-- Where the headers of the handler can stand in a head, the client has them as they are. -/
theorem modeOk_plain (h : Holds us q) (hmajor : q.major = 1) (hminor : q.minor ≤ 1)
    (hfields : ∀ x ∈ us, FieldOk x)
    (hreason : ∀ b ∈ q.responseCodeLine, b ≠ CR ∧ b ≠ LF ∧ b ≠ NUL) :
    ModeOk cfg q ↔ EntriesOk cfg q q.outputHeaders := by
  have hm : sentMinor cfg q = 0 ∨ sentMinor cfg q = 1 := by
    rcases sentMinor_cases cfg hminor with h | h
    · exact .inr h.1
    · exact .inl h.1
  have hquiet : ∀ b ∈ statusText (sentMinor cfg q) q.responseCode q.responseCodeLine,
      isEol b = false :=
    isEol_line fun b hb => ⟨(mem_statusText hreason hb).1, (mem_statusText hreason hb).2.1⟩
  have hfirst : takeLine isEol (statusText (sentMinor cfg q) q.responseCode q.responseCodeLine ++
      (CRLF ++ (us.map fun h => fieldLine h ++ CRLF).flatten)) =
        some (statusText (sentMinor cfg q) q.responseCode q.responseCodeLine,
          (us.map fun h => fieldLine h ++ CRLF).flatten) :=
    takeLine_mates isEol hquiet (by decide) (by decide) _
  have hall : addFields [] us = us := by
    rw [addFields_eq (Nat.zero_le _), List.nil_append, List.take_of_length_le (by simpa using h.fits)]
  have hread := @feedHead_fieldLines { client with minor := sentMinor cfg q } [] us
    (fun x hx => by cases hx) hfields tableOf_nil.symm []
  rw [List.append_nil, hall] at hread
  have hheard : heard (opening cfg q) = .more ⟨.readingHeaders,
      { client with minor := sentMinor cfg q, inputHeaders := q.outputHeaders }⟩ [] := by
    rw [opening, statusLine_eq hmajor hminor hreason, h.table, headerLine_tableOf hfields,
      List.append_assoc, heard]
    rw [statusText] at hfirst ⊢
    rw [feed_next isEol clientAct hfirst (clientAct_statusLine hm _), heard_headers]
    exact hread
  rw [ModeOk, hheard]

end Mode

/-! ## Replies and pages -/

theorem Holds.same {us : List Header} {q q' : HttpReq} (h : Holds us q)
    (heq : q'.outputHeaders = q.outputHeaders) : Holds us q' :=
  ⟨heq.trans h.table, h.used, h.fits⟩

end Http
end Shs
