import Shs.Http.Serialize
import Shs.Http.SetCookie
import Shs.Lib.TreeMap

/-!
# Http.InvokeReply

`SHSHttpHandler::InvokeReply`, which makes the HTTP reply to a request out of what a module has
answered, and the table of reason phrases it looks codes up in.
-/

namespace Shs
namespace Http

/-- `kStatusInfo`, less the entry that ends it. -/
def kStatusInfo : List (Int × Bytes) :=
  [(100, str "Continue"),
    (101, str "Switching Protocols"),
    (200, str "OK"),
    (201, str "Created"),
    (202, str "Accepted"),
    (203, str "Non-Authoritative Information"),
    (204, str "No Content"),
    (205, str "Reset Content"),
    (206, str "Partial Content"),
    (300, str "Multiple Choices"),
    (301, str "Moved Permanently"),
    (302, str "Found"),
    (303, str "See Other"),
    (304, str "Not Modified"),
    (305, str "Use Proxy"),
    (307, str "Temporary Redirect"),
    (400, str "Bad Request"),
    (401, str "Unauthorized"),
    (402, str "Payment Required"),
    (403, str "Forbidden"),
    (404, str "Not Found"),
    (405, str "Method Not Allowed"),
    (406, str "Not Acceptable"),
    (407, str "Proxy Authentication Required"),
    (408, str "Request Timeout"),
    (409, str "Conflict"),
    (410, str "Gone"),
    (411, str "Length Required"),
    (412, str "Precondition Failed"),
    (413, str "Request Entity Too Large"),
    (414, str "Request-URI Too Long"),
    (415, str "Unsupported Media Type"),
    (416, str "Requested Range Not Satisfiable"),
    (417, str "Expectation Failed"),
    (500, str "Internal Server Error"),
    (501, str "Not Implemented"),
    (502, str "Bad Gateway"),
    (503, str "Service Unavailable"),
    (504, str "Gateway Timeout"),
    (505, str "HTTP Version Not Supported")]

/-- `get_reason_phrase`, `none` for NULL. -/
def getReasonPhrase (responseCode : Int) : Option Bytes := kStatusInfo.lookup responseCode

/-- What `InvokeReply` reads of an `InvokeResult`. -/
structure InvokeResult where
  ec : Int
  results : HttpQuery

/-- The arguments of a call of `http_send_reply`. -/
structure SendReply where
  code : Int
  reason : Bytes
  data : Bytes
  deriving DecidableEq, Repr

/-- The request and the locals of `InvokeReply`. -/
structure Replying where
  q : HttpReq
  responseCode : Int := 404
  reasonPhrase : Bytes := []
  userDefineResponseCode : Bool := false

/-- The body of the loop over the results, `none` where a `Set-Cookie` entry is read beyond its
end. The bytes of the entry are those of its `c_str()`, so the terminator is one of them. -/
def replyEntry (s : Replying) (kv : Bytes × Bytes) : Option Replying :=
  if kv.1 = str "result" then some s
  else if kv.1 = str "response_code" then
    some { s with userDefineResponseCode := true, responseCode := atoi (cstr kv.2) }
  else if kv.1 = str "reason_phrase" then some { s with reasonPhrase := kv.2 }
  else if isSetCookie kv.1 ∧ kv.2 ≠ [] then
    (cookieValues (kv.2 ++ [NUL])).map fun vs =>
      { s with q := vs.foldl (fun q v => httpAddOutputHeader q kv.1 v) s.q }
  else some { s with q := httpAddOutputHeader s.q kv.1 kv.2 }

/-- The last lines. A `std::string` must not be assigned NULL: there it is `none`. -/
def sendReply (s : Replying) (data : Bytes) : Option (HttpReq × List SendReply) :=
  if s.reasonPhrase = [] then
    (getReasonPhrase s.responseCode).map fun reason => (s.q, [⟨s.responseCode, reason, data⟩])
  else some (s.q, [⟨s.responseCode, s.reasonPhrase, data⟩])

/-- A result with a code or with data gets a content type. -/
def addContentType (r : InvokeResult) (s : Replying) : Replying :=
  if str "Content-Type" ∈ r.results then s
  else
    { s with q := httpAddOutputHeader s.q (str "Content-Type") (str "text/plain; charset=UTF-8") }

/-- Its code and its reason. -/
def chooseReply (s : Replying) : Option Replying :=
  if s.userDefineResponseCode then
    if s.reasonPhrase = [] then
      (getReasonPhrase s.responseCode).map fun reason =>
        { s with reasonPhrase := reason
                 responseCode := if reason = [] then 404 else s.responseCode }
    else some s
  else some { s with responseCode := 200 }

/-- `SHSHttpHandler::InvokeReply`: what becomes of the request, and the calls of
`http_send_reply`. -/
def invokeReply (q : HttpReq) (r : InvokeResult) : Option (HttpReq × List SendReply) :=
  if r.ec = 0 then
    let data := (r.results[str "result"]?).getD []
    match r.results.toList.foldlM replyEntry { q := q } with
    | none => none
    | some s =>
      if ¬ s.userDefineResponseCode ∧ data = [] then sendReply s data
      else (chooseReply (addContentType r s)).bind fun s => sendReply s data
  else sendReply { q := q } []

/-- One call of `http_send_reply`, with a reason and with a code that `http_parse_response_line`
takes from the response line. -/
def Replies (q : HttpReq) (r : InvokeResult) : Prop :=
  ∃ q' c, invokeReply q r = some (q', [c]) ∧
    httpValidResponseCode (atoi (decimal c.code)) = true

/-! ## The table -/

theorem getReasonPhrase_eq_some {code : Int} {reason : Bytes}
    (h : getReasonPhrase code = some reason) :
    code ≠ 0 ∧ reason ≠ [] ∧ 0 ≤ code ∧ code < 1000 := by
  have hall : ∀ e ∈ kStatusInfo, e.1 ≠ 0 ∧ e.2 ≠ [] ∧ 0 ≤ e.1 ∧ e.1 < 1000 := by
    simp [kStatusInfo, str_eq_nil_iff]
  obtain ⟨l₁, l₂, hsplit, -⟩ := List.lookup_eq_some_iff.1 h
  have hmem : (code, reason) ∈ kStatusInfo := by rw [hsplit]; simp
  exact hall _ hmem

theorem getReasonPhrase_isSome_iff (code : Int) :
    (getReasonPhrase code).isSome ↔ code ∈ kStatusInfo.map (·.1) := by
  unfold getReasonPhrase
  generalize kStatusInfo = table
  induction table with
  | nil => simp
  | cons e table ih =>
    obtain ⟨c, p⟩ := e
    rw [List.lookup_cons]
    by_cases hc : code = c
    · simp [hc]
    · rw [beq_false_of_ne hc, ih]
      simp [hc]

/-! ## The loop -/

theorem replyEntry_isSome_iff (s : Replying) (kv : Bytes × Bytes) :
    (replyEntry s kv).isSome ↔
      (isSetCookie kv.1 = true → kv.2 ≠ [] → (cookieValues (kv.2 ++ [NUL])).isSome) := by
  have hspecial : isSetCookie (str "result") = false ∧ isSetCookie (str "response_code") = false ∧
      isSetCookie (str "reason_phrase") = false := by decide
  unfold replyEntry
  split
  · rename_i hk
    simp [hk, hspecial.1]
  · split
    · rename_i hk
      simp [hk, hspecial.2.1]
    · split
      · rename_i hk
        simp [hk, hspecial.2.2]
      · split
        · rename_i hc
          rw [Option.isSome_map]
          exact ⟨fun h _ _ => h, fun h => h hc.1 hc.2⟩
        · rename_i hc
          simp only [Option.isSome_some, true_iff]
          intro h1 h2
          exact absurd ⟨h1, h2⟩ hc

theorem replyEntry_fields {s s' : Replying} {kv : Bytes × Bytes} (h : replyEntry s kv = some s') :
    s'.responseCode = (if kv.1 = str "response_code" then atoi (cstr kv.2) else s.responseCode) ∧
    s'.reasonPhrase = (if kv.1 = str "reason_phrase" then kv.2 else s.reasonPhrase) ∧
    s'.userDefineResponseCode = (s.userDefineResponseCode || kv.1 == str "response_code") := by
  have hne : str "result" ≠ str "response_code" ∧ str "result" ≠ str "reason_phrase" ∧
      str "response_code" ≠ str "reason_phrase" := by decide
  unfold replyEntry at h
  split at h
  · rename_i hk
    cases h
    simp [hk, hne.1, hne.2.1]
  · split at h
    · rename_i hk
      cases h
      simp [hk, hne.2.2]
    · rename_i hcode
      split at h
      · rename_i hk
        cases h
        simp [hk, hne.2.2.symm]
      · rename_i hreason
        split at h
        · obtain ⟨vs, -, rfl⟩ := Option.map_eq_some_iff.1 h
          simp [hcode, hreason]
        · cases h
          simp [hcode, hreason]

theorem replyEntries_isSome_iff (kvs : List (Bytes × Bytes)) (s : Replying) :
    (kvs.foldlM replyEntry s).isSome ↔
      ∀ kv ∈ kvs, isSetCookie kv.1 = true → kv.2 ≠ [] →
        (cookieValues (kv.2 ++ [NUL])).isSome := by
  induction kvs generalizing s with
  | nil => simp
  | cons kv kvs ih =>
    rw [List.foldlM_cons, List.forall_mem_cons, ← replyEntry_isSome_iff s kv]
    cases hs : replyEntry s kv with
    | none => simp
    | some s' => simp [ih]

/-- What the loop leaves in the locals, where no name comes twice. -/
theorem replyEntries_fields {kvs : List (Bytes × Bytes)} (hnodup : (kvs.map (·.1)).Nodup)
    {s s' : Replying} (h : kvs.foldlM replyEntry s = some s') :
    s'.responseCode =
      ((kvs.lookup (str "response_code")).map fun t => atoi (cstr t)).getD s.responseCode ∧
    s'.reasonPhrase = (kvs.lookup (str "reason_phrase")).getD s.reasonPhrase ∧
    s'.userDefineResponseCode =
      (s.userDefineResponseCode || (kvs.lookup (str "response_code")).isSome) := by
  induction kvs generalizing s with
  | nil =>
    cases h
    simp
  | cons kv kvs ih =>
    obtain ⟨key, value⟩ := kv
    rw [List.map_cons, List.nodup_cons] at hnodup
    rw [List.foldlM_cons] at h
    cases hs : replyEntry s (key, value) with
    | none =>
      rw [hs] at h
      cases h
    | some t =>
      rw [hs] at h
      obtain ⟨hcode, hreason, huser⟩ := replyEntry_fields hs
      obtain ⟨hcode', hreason', huser'⟩ := ih hnodup.2 h
      have hfresh : ∀ name, key = name → kvs.lookup name = none := by
        rintro name rfl
        rw [List.lookup_eq_none_iff]
        intro p hp
        simp only [bne_iff_ne, ne_eq]
        rintro rfl
        exact hnodup.1 (List.mem_map.2 ⟨p, hp, rfl⟩)
      rw [hcode', hreason', huser', hcode, hreason, huser, List.lookup_cons, List.lookup_cons]
      refine ⟨?_, ?_, ?_⟩
      · by_cases hk : key = str "response_code"
        · simp [hk, hfresh _ hk]
        · rw [if_neg hk, beq_false_of_ne (Ne.symm hk)]
      · by_cases hk : key = str "reason_phrase"
        · simp [hk, hfresh _ hk]
        · rw [if_neg hk, beq_false_of_ne (Ne.symm hk)]
      · by_cases hk : key = str "response_code"
        · simp [hk, hfresh _ hk]
        · rw [beq_false_of_ne hk, beq_false_of_ne (Ne.symm hk), Bool.or_false]

/-! ## The reply -/

theorem atoi_range (s : Bytes) : -2 ^ 31 ≤ atoi s ∧ atoi s < 2 ^ 31 := by
  have hlo := Int.le_bmod (x := (strtoll s).1) (show 0 < 2 ^ 32 by decide)
  have hhi := Int.bmod_lt (x := (strtoll s).1) (show 0 < 2 ^ 32 by decide)
  unfold atoi toInt32
  omega

theorem valid_iff {code : Int} (h : -2 ^ 31 ≤ code ∧ code < 2 ^ 31) :
    httpValidResponseCode (atoi (decimal code)) = true ↔ code ≠ 0 := by
  rw [atoi_decimal h.1 h.2, httpValidResponseCode, bne_iff_ne]

theorem sendReply_reason {s : Replying} (h : s.reasonPhrase ≠ []) (data : Bytes) :
    sendReply s data = some (s.q, [⟨s.responseCode, s.reasonPhrase, data⟩]) := if_neg h

/-- With a code of the table a reply is sent, whatever the reason. -/
theorem sendReply_known {s : Replying} {reason : Bytes}
    (h : getReasonPhrase s.responseCode = some reason) (data : Bytes) :
    ∃ q' c, sendReply s data = some (q', [c]) ∧
      httpValidResponseCode (atoi (decimal c.code)) = true := by
  obtain ⟨hne, -, hlo, hhi⟩ := getReasonPhrase_eq_some h
  have hrange : -2 ^ 31 ≤ s.responseCode ∧ s.responseCode < 2 ^ 31 := ⟨by omega, by omega⟩
  have hvalid := (valid_iff hrange).2 hne
  unfold sendReply
  split
  · rw [h]
    exact ⟨_, _, rfl, hvalid⟩
  · exact ⟨_, _, rfl, hvalid⟩

theorem addContentType_fields (r : InvokeResult) (s : Replying) :
    (addContentType r s).responseCode = s.responseCode ∧
    (addContentType r s).reasonPhrase = s.reasonPhrase ∧
    (addContentType r s).userDefineResponseCode = s.userDefineResponseCode := by
  unfold addContentType
  split <;> exact ⟨rfl, rfl, rfl⟩

/-- The reply with a code of the module's own. -/
theorem chooseReply_own {s : Replying} (hs : s.userDefineResponseCode = true)
    (hrange : -2 ^ 31 ≤ s.responseCode ∧ s.responseCode < 2 ^ 31) (data : Bytes) :
    (∃ q' c, ((chooseReply s).bind fun s => sendReply s data) = some (q', [c]) ∧
        httpValidResponseCode (atoi (decimal c.code)) = true) ↔
      if s.reasonPhrase = [] then s.responseCode ∈ kStatusInfo.map (·.1)
      else s.responseCode ≠ 0 := by
  rw [chooseReply, if_pos hs]
  by_cases hempty : s.reasonPhrase = []
  · rw [if_pos hempty, if_pos hempty, ← getReasonPhrase_isSome_iff]
    cases hfound : getReasonPhrase s.responseCode with
    | none => simp
    | some reason =>
      obtain ⟨hne, hreason, -⟩ := getReasonPhrase_eq_some hfound
      simp only [Option.map_some, Option.bind_some, Option.isSome_some, iff_true, if_neg hreason]
      rw [sendReply_reason hreason]
      exact ⟨_, _, rfl, (valid_iff hrange).2 hne⟩
  · rw [if_neg hempty, if_neg hempty, Option.bind_some, sendReply_reason hempty]
    constructor
    · rintro ⟨q', c, heq, hvalid⟩
      cases heq
      exact (valid_iff hrange).1 hvalid
    · intro hne
      exact ⟨_, _, rfl, (valid_iff hrange).2 hne⟩

/-- What the loop leaves in the locals, said of the map. -/
theorem results_fields {q : HttpReq} {r : InvokeResult} {s : Replying}
    (h : r.results.toList.foldlM replyEntry { q := q } = some s) :
    s.responseCode = ((r.results[str "response_code"]?).map fun t => atoi (cstr t)).getD 404 ∧
    s.reasonPhrase = (r.results[str "reason_phrase"]?).getD [] ∧
    s.userDefineResponseCode = (r.results[str "response_code"]?).isSome := by
  have hfields := replyEntries_fields (TreeMap.nodup_toList r.results) h
  rwa [TreeMap.lookup_toList, TreeMap.lookup_toList, Bool.false_or] at hfields

theorem results_isSome_iff (q : HttpReq) (r : InvokeResult) :
    (r.results.toList.foldlM replyEntry { q := q }).isSome ↔
      ∀ (name s : Bytes), r.results[name]? = some s → isSetCookie name = true → s ≠ [] →
        (cookieValues (s ++ [NUL])).isSome := by
  rw [replyEntries_isSome_iff]
  constructor
  · intro h name s hs
    exact h (name, s) (Std.ExtTreeMap.mem_toList_iff_getElem?_eq_some.2 hs)
  · intro h kv hkv
    exact h kv.1 kv.2 (Std.ExtTreeMap.mem_toList_iff_getElem?_eq_some.1 hkv)

/-- `InvokeReply` sends one reply, with a reason and a code that the client takes, if and only if
the module has failed, or its `Set-Cookie` entries are packed, where the terminator counts as a
byte of theirs, and the response code it gives, if any, is in the table or, beside a reason phrase,
not 0. -/
theorem invokeReply_replies_iff (q : HttpReq) (r : InvokeResult) :
    Replies q r ↔ (r.ec = 0 →
      (∀ (name s : Bytes), r.results[name]? = some s → isSetCookie name = true → s ≠ [] →
        ∃ vs rest, Records.Fits u16Field vs ∧ s ++ [NUL] = packed vs ++ rest) ∧
      ∀ text, r.results[str "response_code"]? = some text →
        if (r.results[str "reason_phrase"]?).getD [] = [] then
          atoi (cstr text) ∈ kStatusInfo.map (·.1)
        else atoi (cstr text) ≠ 0) := by
  have hcookies : (∀ (name s : Bytes), r.results[name]? = some s → isSetCookie name = true →
      s ≠ [] → ∃ vs rest, Records.Fits u16Field vs ∧ s ++ [NUL] = packed vs ++ rest) ↔
      (r.results.toList.foldlM replyEntry { q := q }).isSome := by
    rw [results_isSome_iff]
    simp only [cookieValues_eq, Records.unpack_isSome_iff, packed_eq]
  rw [Replies, invokeReply, hcookies]
  by_cases hec : r.ec = 0
  · rw [if_pos hec]
    simp only [hec, true_imp_iff]
    cases hloop : r.results.toList.foldlM replyEntry { q := q } with
    | none => simp
    | some s =>
      obtain ⟨hcode, hreason, huser⟩ := results_fields hloop
      simp only [Option.isSome_some, true_and]
      cases htext : r.results[str "response_code"]? with
      | none =>
        rw [htext] at hcode huser
        have hno : ∀ (p : Bytes → Prop), ∀ text, none = some text → p text := fun p text h => nomatch h
        refine iff_of_true ?_ (hno _)
        split
        · exact sendReply_known (show _ = some (str "Not Found") by rw [hcode]; decide) _
        · obtain ⟨-, -, huser'⟩ := addContentType_fields r s
          rw [chooseReply, if_neg (by rw [huser', huser]; decide), Option.bind_some]
          exact sendReply_known (show getReasonPhrase 200 = some (str "OK") by decide) _
      | some text =>
        rw [htext] at hcode huser
        rw [if_neg (by rw [huser]; simp)]
        obtain ⟨hcode', hreason', huser'⟩ := addContentType_fields r s
        rw [chooseReply_own (huser'.trans huser) (by rw [hcode', hcode]; exact atoi_range _), hcode',
          hreason', hcode, hreason]
        simp
  · rw [if_neg hec]
    refine iff_of_true ?_ fun h => absurd h hec
    exact sendReply_known (show getReasonPhrase 404 = some (str "Not Found") by decide) _

/-- The code 299 is not in the table, and no reason phrase comes with it. -/
theorem invokeReply_no_reason : ¬ ∀ (q : HttpReq) (r : InvokeResult), Replies q r := by
  intro h
  obtain ⟨q', c, hreply, -⟩ := h {} ⟨0, (∅ : HttpQuery).insert (str "response_code") (str "299")⟩
  have hnone : (invokeReply {}
      ⟨0, (∅ : HttpQuery).insert (str "response_code") (str "299")⟩).isNone = true := by
    decide +kernel
  rw [hreply] at hnone
  cases hnone

end Http
end Shs
