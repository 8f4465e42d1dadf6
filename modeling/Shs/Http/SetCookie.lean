import Shs.Http.Lookup
import Shs.Http.Uri
import Shs.Lib.Records

/-!
# Http.SetCookie

The values of repeated `Set-Cookie` headers share one entry of a map: `HttpInvokeParams::set_header`
packs them into it, and the loop of `SHSHttpHandler::InvokeReply` over the entry takes them out.
The count and the lengths are `uint16_t` in the order of the machine, the low byte first.
-/

namespace Shs
namespace Http

/-- The bytes of a `uint16_t`. -/
def u16 (n : Nat) : Bytes := [UInt8.ofNat (n % 256), UInt8.ofNat (n / 256 % 256)]

/-- The `uint16_t` of two bytes. -/
def ofU16 (lo hi : Byte) : Nat := lo.toNat + 256 * hi.toNat

/-- `0 == strcasecmp(name.c_str(), "Set-Cookie")`. -/
def isSetCookie (name : Bytes) : Bool := sameText (cstr name) (str "Set-Cookie")

/-- `*(uint16_t*)data += 1`. An entry that `set_header` has made begins with its count. -/
def bumpCount : Bytes → Bytes
  | lo :: hi :: rest => u16 (ofU16 lo hi + 1) ++ rest
  | s => s

/-- `HttpInvokeParams::set_header`. -/
def setHeader (key value : Bytes) (headers : HttpQuery) : HttpQuery :=
  if isSetCookie key then
    headers.insert key (bumpCount ((headers[key]?).getD (u16 0)) ++ u16 value.length ++ value)
  else headers.insert key value

/-- The loop of `InvokeReply` over a `Set-Cookie` entry with `k` rounds to go, where `curr` is
what the string holds from there on. It is `none` where it reads beyond the string. -/
def cookieLoop : Nat → Bytes → Option (List Bytes)
  | 0, _ => some []
  | k + 1, lo :: hi :: curr =>
    let length := ofU16 lo hi
    if length ≤ curr.length then (cookieLoop k (curr.drop length)).map (curr.take length :: ·)
    else none
  | _ + 1, _ => none

/-- The values that `InvokeReply` takes out of a `Set-Cookie` entry. -/
def cookieValues : Bytes → Option (List Bytes)
  | lo :: hi :: curr => cookieLoop (ofU16 lo hi) curr
  | _ => none

/-! ## The format -/

theorem ofU16_u16 (n : Nat) :
    ofU16 (UInt8.ofNat (n % 256)) (UInt8.ofNat (n / 256 % 256)) = n % 2 ^ 16 := by
  simp only [ofU16, UInt8.toNat_ofNat', Nat.reducePow]
  omega

theorem u16_ofU16 (lo hi : Byte) : u16 (ofU16 lo hi) = [lo, hi] := by
  have hlo := lo.toNat_lt
  have hhi := hi.toNat_lt
  have h1 : (lo.toNat + 256 * hi.toNat) % 256 = lo.toNat := by omega
  have h2 : (lo.toNat + 256 * hi.toNat) / 256 % 256 = hi.toNat := by omega
  rw [u16, ofU16, h1, h2, UInt8.ofNat_toNat, UInt8.ofNat_toNat]

theorem ofU16_lt (lo hi : Byte) : ofU16 lo hi < 2 ^ 16 := by
  have hlo := lo.toNat_lt
  have hhi := hi.toNat_lt
  unfold ofU16
  omega

def takeU16 : Bytes → Option (Nat × Bytes)
  | lo :: hi :: rest => some (ofU16 lo hi, rest)
  | _ => none

def u16Field : Records.Field Byte where
  bound := 2 ^ 16
  put := u16
  get := takeU16
  get_put := by
    intro n rest
    show some (ofU16 _ _, rest) = _
    rw [ofU16_u16]
  put_get := by
    intro s n rest h
    match s, h with
    | lo :: hi :: s, h =>
      obtain ⟨rfl, rfl⟩ : ofU16 lo hi = n ∧ s = rest := by simpa [takeU16] using h
      exact ⟨ofU16_lt lo hi, by rw [u16_ofU16]; rfl⟩

/-- The value list as `set_header` packs it. -/
def packed (vs : List Bytes) : Bytes :=
  u16 vs.length ++ vs.flatMap fun v => u16 v.length ++ v

theorem packed_eq (vs : List Bytes) : packed vs = Records.pack u16Field vs := rfl

theorem cookieLoop_eq (k : Nat) (curr : Bytes) :
    cookieLoop k curr = Records.values u16Field k curr := by
  induction k generalizing curr with
  | zero => rfl
  | succ k ih =>
    match curr with
    | [] => rfl
    | [_] => rfl
    | lo :: hi :: curr =>
      rw [cookieLoop, Records.values]
      show _ = if ofU16 lo hi ≤ curr.length then
          (Records.values u16Field k (curr.drop (ofU16 lo hi))).map (curr.take (ofU16 lo hi) :: ·)
        else none
      rw [ih]

theorem cookieValues_eq (s : Bytes) : cookieValues s = Records.unpack u16Field s := by
  match s with
  | [] => rfl
  | [_] => rfl
  | lo :: hi :: curr => exact cookieLoop_eq _ curr

/-- The loop keeps to the string if and only if the string begins with a packed list of fewer than
65536 values, each shorter than 65536 bytes. -/
theorem cookieValues_isSome_iff (s : Bytes) :
    (cookieValues s).isSome ↔ ∃ vs rest, vs.length < 2 ^ 16 ∧ (∀ v ∈ vs, v.length < 2 ^ 16) ∧
      s = packed vs ++ rest := by
  rw [cookieValues_eq, Records.unpack_isSome_iff]
  constructor
  · rintro ⟨vs, rest, ⟨hlen, hall⟩, hs⟩
    exact ⟨vs, rest, hlen, hall, hs⟩
  · rintro ⟨vs, rest, hlen, hall, hs⟩
    exact ⟨vs, rest, ⟨hlen, hall⟩, hs⟩

/-- Plain text: its first two bytes make a count of 25705, the other two a length of 12605, and
nothing follows. -/
theorem cookieValues_plain : ¬ ∀ s : Bytes, s ≠ [] → (cookieValues s).isSome := by
  intro h
  have hsome := h (str "id=1") (by decide)
  exact absurd hsome (by decide)

/-! ## What `set_header` packs -/

/-- `set_header` for each name and value in order. -/
def setHeaders (calls : List (Bytes × Bytes)) (headers : HttpQuery) : HttpQuery :=
  calls.foldl (fun headers c => setHeader c.1 c.2 headers) headers

/-- The values given under a name, in order. -/
def valuesOf (key : Bytes) (calls : List (Bytes × Bytes)) : List Bytes :=
  (calls.filter fun c => c.1 == key).map (·.2)

/-- What `InvokeReply` takes out of the entry under `key`, if there is one. -/
def cookiesUnder (key : Bytes) (headers : HttpQuery) : Option (List Bytes) :=
  match headers[key]? with
  | none => some []
  | some s => cookieValues s

theorem u16_succ_mod (n : Nat) : u16 (n % 2 ^ 16 + 1) = u16 (n + 1) := by
  have h1 : (n % 2 ^ 16 + 1) % 256 = (n + 1) % 256 := by omega
  have h2 : (n % 2 ^ 16 + 1) / 256 % 256 = (n + 1) / 256 % 256 := by omega
  rw [u16, u16, h1, h2]

theorem bumpCount_u16 (n : Nat) (rest : Bytes) : bumpCount (u16 n ++ rest) = u16 (n + 1) ++ rest := by
  show u16 (ofU16 _ _ + 1) ++ rest = _
  rw [ofU16_u16, u16_succ_mod]

/-- The entry for the values `vs`. -/
def entryOf (vs : List Bytes) : Option Bytes := if vs = [] then none else some (packed vs)

theorem entryOf_concat (vs : List Bytes) (v : Bytes) :
    entryOf (vs ++ [v]) = some (bumpCount ((entryOf vs).getD (u16 0)) ++ u16 v.length ++ v) := by
  have hne : vs ++ [v] ≠ [] := by simp
  rw [entryOf, if_neg hne]
  have hcount : bumpCount ((entryOf vs).getD (u16 0)) =
      u16 (vs.length + 1) ++ vs.flatMap fun v => u16 v.length ++ v := by
    unfold entryOf
    split
    · rename_i hnil
      rw [hnil]
      exact bumpCount_u16 0 []
    · exact bumpCount_u16 _ _
  rw [hcount, packed]
  simp

theorem setHeader_self {key : Bytes} (hkey : isSetCookie key = true) (value : Bytes)
    (headers : HttpQuery) :
    (setHeader key value headers)[key]? =
      some (bumpCount ((headers[key]?).getD (u16 0)) ++ u16 value.length ++ value) := by
  rw [setHeader, if_pos hkey, Std.ExtTreeMap.getElem?_insert_self]

theorem setHeader_other {key key' : Bytes} (hne : key' ≠ key) (value : Bytes)
    (headers : HttpQuery) : (setHeader key' value headers)[key]? = headers[key]? := by
  unfold setHeader
  split <;> rw [Std.ExtTreeMap.getElem?_insert, if_neg (by simp [hne])]

/-- One call keeps the entry under `key` the packing of the values given under it. -/
theorem setHeaders_entry {key : Bytes} (hkey : isSetCookie key = true)
    (calls : List (Bytes × Bytes)) (headers : HttpQuery) (vs : List Bytes)
    (h : headers[key]? = entryOf vs) :
    (setHeaders calls headers)[key]? = entryOf (vs ++ valuesOf key calls) := by
  induction calls generalizing headers vs with
  | nil => simpa [setHeaders, valuesOf] using h
  | cons c calls ih =>
    obtain ⟨key', v⟩ := c
    by_cases hc : key' = key
    · subst hc
      have hentry : (setHeader key' v headers)[key']? = entryOf (vs ++ [v]) := by
        rw [setHeader_self hkey, h, entryOf_concat]
      have hnext := ih _ _ hentry
      simpa [setHeaders, valuesOf] using hnext
    · have hentry : (setHeader key' v headers)[key]? = entryOf vs := by
        rw [setHeader_other hc, h]
      have hnext := ih _ _ hentry
      simpa [setHeaders, valuesOf, hc] using hnext

theorem cookiesUnder_setHeaders {key : Bytes} (hkey : isSetCookie key = true)
    (calls : List (Bytes × Bytes)) :
    cookiesUnder key (setHeaders calls ∅) =
      if valuesOf key calls = [] then some []
      else Records.unpack u16Field (Records.pack u16Field (valuesOf key calls)) := by
  have hentry := setHeaders_entry hkey calls ∅ [] (by simp [entryOf])
  rw [List.nil_append] at hentry
  rw [cookiesUnder, hentry, entryOf]
  by_cases hnil : valuesOf key calls = []
  · rw [if_pos hnil, if_pos hnil]
  · rw [if_neg hnil, if_neg hnil]
    exact cookieValues_eq _

/-- The values that `set_header` is given under a `Set-Cookie` name, in any company, come out
again if and only if they are fewer than 65536 and each is shorter than 65536 bytes. -/
theorem cookiesUnder_setHeaders_iff {key : Bytes} (hkey : isSetCookie key = true)
    (calls : List (Bytes × Bytes)) :
    cookiesUnder key (setHeaders calls ∅) = some (valuesOf key calls) ↔
      (valuesOf key calls).length < 2 ^ 16 ∧ ∀ v ∈ valuesOf key calls, v.length < 2 ^ 16 := by
  rw [cookiesUnder_setHeaders hkey]
  split
  · rename_i hnil
    simp [hnil]
  · exact Records.unpack_pack_iff (valuesOf key calls)

/-- Two cookies, with another header between them. -/
theorem cookiesUnder_setHeaders_two :
    cookiesUnder (str "set-cookie") (setHeaders
      [(str "set-cookie", str "a=1"), (str "Server", str "shs"), (str "set-cookie", str "b=2")] ∅) =
        some [str "a=1", str "b=2"] :=
  (cookiesUnder_setHeaders_iff (by decide) _).2 (by decide)

/-- A value of 65536 bytes leaves a length of 0, and the empty value is taken out. -/
theorem long_cookie_lost :
    ¬ ∀ (key : Bytes) (calls : List (Bytes × Bytes)), isSetCookie key = true →
      cookiesUnder key (setHeaders calls ∅) = some (valuesOf key calls) := by
  intro h
  have hread := h (str "Set-Cookie") [(str "Set-Cookie", List.replicate (2 ^ 16) 97)] (by decide)
  rw [cookiesUnder_setHeaders (by decide)] at hread
  have hvalues : valuesOf (str "Set-Cookie") [(str "Set-Cookie", List.replicate (2 ^ 16) 97)] =
      [List.replicate (2 ^ 16) 97] := rfl
  rw [hvalues, if_neg (List.cons_ne_nil _ _), Records.unpack_pack_iff] at hread
  have hlen := hread.2 _ List.mem_cons_self
  rw [List.length_replicate] at hlen
  exact absurd hlen (Nat.lt_irrefl _)

end Http
end Shs
