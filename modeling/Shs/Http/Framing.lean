import Shs.Http.RoundTrip

/-!
# Http.Framing

Where the receiver of a message takes the length of its body from, whatever the sender called its
fields: `http_find_header` and `http_exist_header` take every name that begins with the one they
look for. Which replies come through with an arbitrary list of given fields, and which bodies do.
-/

namespace Shs
namespace Http

open LineStream

/-! ## The length that the head tells -/

/-- The receiver can take the body `data` from the head: the first given field that passes for a
Content-Length tells the length of the body, or there is none and the writing side adds one. -/
structure Framed (table : List Header) (adds : Bool) (data : Bytes) : Prop where
  body  : data ≠ []
  plain : httpIsChunked { inputHeaders := table } = false
  given : ∀ v, httpFindHeader table (str "Content-Length") = some v →
    strtoll v = ((data.length : Int), [])
  added : httpFindHeader table (str "Content-Length") = none → adds = true

theorem httpGetBodyLength_iff {q : HttpReq} {v : Bytes} {n : Nat}
    (h : httpFindHeader q.inputHeaders (str "Content-Length") = some v) :
    httpGetBodyLength q = some n ↔ 0 < n ∧ strtoll v = ((n : Int), []) := by
  rw [httpGetBodyLength, h]
  rcases hv : strtoll v with ⟨k, endp⟩
  simp only [hv]
  constructor
  · intro hsome
    split at hsome
    · cases hsome
    · rename_i hok
      simp only [not_or, not_not, Int.not_le] at hok
      obtain ⟨-, rfl, hpos⟩ := hok
      obtain rfl := Option.some.inj hsome
      exact ⟨by omega, by rw [Int.toNat_of_nonneg hpos.le]⟩
  · rintro ⟨hn, hval⟩
    obtain ⟨rfl, rfl⟩ := Prod.mk.inj hval
    rw [if_neg, Int.toNat_natCast]
    rintro (rfl | hrest | hle)
    · have hzero : strtoll [] = (0, []) := rfl
      rw [hzero] at hv
      have := congrArg Prod.fst hv
      simp only at this
      omega
    · exact hrest rfl
    · omega

/-- Entries that a search does not see, behind the fields of a table. -/
theorem httpFindHeader_addFields {us es : List Header} {name : Bytes} (hl : us.length ≤ HEADER_NUM)
    (h : httpFindHeader (tableOf us) name ≠ none ∨ ∀ e ∈ es, e.named name = false) :
    httpFindHeader (tableOf (addFields us es)) name = httpFindHeader (tableOf us) name := by
  rw [httpFindHeader_tableOf, httpFindHeader] at h
  rw [httpFindHeader_tableOf, httpFindHeader_tableOf, addFields_eq hl, httpFindHeader,
    httpFindHeader, List.find?_append]
  cases hfind : us.find? (Header.named name) with
  | some e => rfl
  | none =>
    rcases h with h | h
    · exact absurd (by rw [hfind]; rfl) h
    · rw [find_none_of_unnamed fun e he => h e (List.mem_of_mem_take he), Option.none_or]

/-- What the receiver makes of a table to which the writing side has added `es`. -/
theorem framed_iff {q' : HttpReq} {us es : List Header} {adds : Bool} {data : Bytes}
    (hl : us.length ≤ HEADER_NUM) (hdata : data.length < 2 ^ 63)
    (htable : q'.inputHeaders = tableOf (addFields us es))
    (hcoding : ∀ e ∈ es, e.named (str "Transfer-Encoding") = false)
    (hlength : (∀ h ∈ us, h.named (str "Content-Length") = false) →
      httpFindHeader q'.inputHeaders (str "Content-Length") =
        if adds = true then some (decimal data.length) else none) :
    httpIsChunked q' = false ∧ httpGetBodyLength q' = some data.length ↔
      Framed (tableOf us) adds data := by
  have hchunked : httpIsChunked q' = httpIsChunked { inputHeaders := tableOf us } := by
    rw [httpIsChunked, httpIsChunked, htable, httpFindHeader_addFields hl (.inr hcoding)]
  have hgiven : ∀ v, httpFindHeader (tableOf us) (str "Content-Length") = some v →
      httpFindHeader q'.inputHeaders (str "Content-Length") = some v := by
    intro v hv
    rw [htable, httpFindHeader_addFields hl (.inl (by simp [hv])), hv]
  have hadded : httpFindHeader (tableOf us) (str "Content-Length") = none →
      httpFindHeader q'.inputHeaders (str "Content-Length") =
        if adds = true then some (decimal data.length) else none := by
    intro hnone
    rw [httpFindHeader_tableOf, httpFindHeader, Option.map_eq_none_iff, List.find?_eq_none] at hnone
    exact hlength fun h hh => by simpa using hnone h hh
  rw [hchunked]
  constructor
  · rintro ⟨hplain, hgot⟩
    refine ⟨?_, hplain, fun v hv => ((httpGetBodyLength_iff (hgiven v hv)).1 hgot).2, ?_⟩
    · exact List.ne_nil_of_length_pos (httpGetBodyLength_pos hgot)
    · intro hnone
      by_contra hadds
      have hfind := hadded hnone
      rw [if_neg hadds] at hfind
      rw [httpGetBodyLength, hfind] at hgot
      cases hgot
  · intro h
    refine ⟨h.plain, ?_⟩
    cases hfind : httpFindHeader (tableOf us) (str "Content-Length") with
    | some v =>
      exact (httpGetBodyLength_iff (hgiven v hfind)).2
        ⟨List.length_pos_iff.2 h.body, h.given v hfind⟩
    | none =>
      have hown := hadded hfind
      rw [if_pos (h.added hfind)] at hown
      rw [httpGetBodyLength_decimal hdata hown, if_neg]
      simpa using h.body

/-! ## Replies with any fields -/

/-- However the network cuts the reply outside its line ends, the client side has all of it. -/
def ReplyComesBack (cfg : WriteCfg) (q : HttpReq) (rep : Reply) : Prop :=
  ∀ (p : HttpReq) (cs : List Bytes), Asking p → cs.flatten = replyBytes cfg q rep →
    CutsOk isEol headAct ⟨.readingFirstline, p.fresh⟩ cs → ReadBack cfg q rep (readRun p cs)

/-- `http_make_response_header` adds a Content-Length to the request `q`, and finds a slot. -/
def addsOwnLength (cfg : WriteCfg) (q : HttpReq) : Bool := addsLength q && lengthFits cfg q

theorem told_framed_iff {cfg : WriteCfg} {q p : HttpReq} {rep : Reply} (hq : Answerable q)
    (hrep : Sendable rep) :
    httpIsChunked (told cfg q rep p) = false ∧
        httpGetBodyLength (told cfg q rep p) = some rep.data.length ↔
      Framed (addReplyHeaders q rep.headers).outputHeaders
        (addsOwnLength cfg (addReplyHeaders q rep.headers)) rep.data := by
  have hadds : addsOwnLength cfg (addReplyHeaders q rep.headers) =
      (addsLength (answer q rep) && lengthFits cfg (answer q rep)) := by
    rw [addsOwnLength, lengthFits_answer hq hrep, addReplyHeaders_answer hq hrep]
    rfl
  rw [hadds, addReplyHeaders_answer hq hrep]
  exact framed_iff hrep.fits hrep.data rfl (fun e he => added_coding he) (find_told_length hrep)

/-- **A reply whose code has a body comes back if and only if its head tells the length of the
body.** -/
theorem replyComesBack_iff (cfg : WriteCfg) (q : HttpReq) (rep : Reply) (hq : Answerable q)
    (hrep : Sendable rep) (hless : bodyless rep.code = false) (hdate : FieldOk (dateHeader cfg))
    (hfits : (replyBytes cfg q rep).length ≤ HEADER_SZ + rep.data.length) :
    ReplyComesBack cfg q rep ↔
      Framed (addReplyHeaders q rep.headers).outputHeaders
        (addsOwnLength cfg (addReplyHeaders q rep.headers)) rep.data := by
  have hbytes := replyBytes_eq hq hrep hdate
  have hcap := head_fits hbytes hfits
  have hneeds : ∀ p : HttpReq, Asking p →
      needsBody (told cfg q rep p).kind (told cfg q rep p) = true := by
    intro p hp
    rw [needsBody_told hp, hless]
    rfl
  constructor
  · intro hback
    have hp : Asking { kind := .response } := ⟨rfl, rfl, rfl, rfl⟩
    refine (told_framed_iff hq hrep).1 (told_of_delivered (replyHead_accepted hq hp hrep hdate) hcap
      (hneeds _ hp) hp.body hp.readDone fun cs hcs hcuts => ?_)
    have h := hback _ cs hp (hcs.trans hbytes.symm) hcuts
    exact ⟨h.done, h.body⟩
  · intro hframed p cs hp hcs hcuts
    obtain ⟨hchunked, hlength⟩ := (told_framed_iff (p := p) hq hrep).2 hframed
    obtain ⟨hdone, hsaid, hbody⟩ := readRun_told (replyHead_accepted hq hp hrep hdate) hcap
      (hneeds p hp) hp.body hp.readDone rep.data cs hchunked hlength (hcs.trans hbytes) hcuts
    exact readBack_of_told hrep hdone hsaid hbody

/-- A reply with one field of the caller. -/
theorem replyComesBack_one :
    ReplyComesBack { date := str "Mon, 28 Sep 2026 10:00:00 GMT" } { major := 1, minor := 1 }
      { headers := [⟨str "X-Kind", str "a: b"⟩], data := str "two\r\n\r\nlines" } := by
  have hfield : FieldOk ⟨str "X-Kind", str "a: b"⟩ := fieldOk_of_readable (by decide)
  have hrep : Sendable
      { headers := [⟨str "X-Kind", str "a: b"⟩], data := str "two\r\n\r\nlines" } :=
    ⟨by decide, by decide, by decide, forall_mem_of_all (by decide),
      fun h hh => by rwa [List.mem_singleton.1 hh], by decide, by decide⟩
  have hnone : httpFindHeader (addReplyHeaders { major := 1, minor := 1 }
      [⟨str "X-Kind", str "a: b"⟩]).outputHeaders (str "Content-Length") = none := by
    decide +kernel
  refine (replyComesBack_iff _ _ _ ⟨rfl, Nat.le_refl 1, rfl, rfl, rfl⟩ hrep (by decide)
    (fieldOk_of_readable (by decide)) (by decide +kernel)).2
    ⟨by decide, by decide +kernel, fun v hv => ?_, fun _ => by decide +kernel⟩
  cases hnone.symm.trans hv

/-- `http_add_content_length_header` writes `Content-Length: 0` for an empty body, and
`http_get_body_length` refuses it. -/
theorem empty_reply_refused :
    let cfg : WriteCfg := { date := str "Mon, 28 Sep 2026 10:00:00 GMT" }
    let q : HttpReq := { major := 1, minor := 1 }
    let rep : Reply := { code := 200, reason := str "OK", headers := [], data := [] }
    Answerable q ∧ Sendable rep ∧ bodyless rep.code = false ∧ FieldOk (dateHeader cfg) ∧
      (replyBytes cfg q rep).length ≤ HEADER_SZ ∧ ¬ ReplyComesBack cfg q rep := by
  intro cfg q rep
  refine ⟨⟨rfl, Nat.le_refl 1, rfl, rfl, rfl⟩, ?_, by decide, fieldOk_of_readable (by decide),
    by decide +kernel, fun hback => ?_⟩
  · exact ⟨by decide, by decide, by decide, forall_mem_of_all (by decide),
      fun h hh => absurd hh List.not_mem_nil, by decide, by decide⟩
  · have hdone := (hback { kind := .response } [replyBytes cfg q rep] ⟨rfl, rfl, rfl, rfl⟩
      (by simp) (cutsOk_single _ _)).done
    have hfail : (readRun { kind := .response } [replyBytes cfg q rep]).2 = .fail .invalidBody := by
      decide +kernel
    rw [hdone] at hfail
    cases hfail

end Http
end Shs
