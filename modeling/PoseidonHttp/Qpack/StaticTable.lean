import PoseidonHttp.Header

/-!
# The QPACK static table

The 99 rows of RFC 9204 Appendix A, numbered from 0, and `lookupStatic`: a map
from a name to its rows in ascending order, then a scan of their values.
-/

namespace Qpack

open Header (Bytes ascii)

def staticTable : List (Bytes × Bytes) :=
  [(":authority", ""), (":path", "/"), ("age", "0"), ("content-disposition", ""),
   ("content-length", "0"), ("cookie", ""), ("date", ""), ("etag", ""), ("if-modified-since", ""),
   ("if-none-match", ""), ("last-modified", ""), ("link", ""), ("location", ""), ("referer", ""),
   ("set-cookie", ""), (":method", "CONNECT"), (":method", "DELETE"), (":method", "GET"),
   (":method", "HEAD"), (":method", "OPTIONS"), (":method", "POST"), (":method", "PUT"),
   (":scheme", "http"), (":scheme", "https"), (":status", "103"), (":status", "200"),
   (":status", "304"), (":status", "404"), (":status", "503"), ("accept", "*/*"),
   ("accept", "application/dns-message"), ("accept-encoding", "gzip, deflate, br"),
   ("accept-ranges", "bytes"), ("access-control-allow-headers", "cache-control"),
   ("access-control-allow-headers", "content-type"), ("access-control-allow-origin", "*"),
   ("cache-control", "max-age=0"), ("cache-control", "max-age=2592000"),
   ("cache-control", "max-age=604800"), ("cache-control", "no-cache"),
   ("cache-control", "no-store"), ("cache-control", "public, max-age=31536000"),
   ("content-encoding", "br"), ("content-encoding", "gzip"),
   ("content-type", "application/dns-message"), ("content-type", "application/javascript"),
   ("content-type", "application/json"), ("content-type", "application/x-www-form-urlencoded"),
   ("content-type", "image/gif"), ("content-type", "image/jpeg"), ("content-type", "image/png"),
   ("content-type", "text/css"), ("content-type", "text/html; charset=utf-8"),
   ("content-type", "text/plain"), ("content-type", "text/plain;charset=utf-8"),
   ("range", "bytes=0-"), ("strict-transport-security", "max-age=31536000"),
   ("strict-transport-security", "max-age=31536000; includesubdomains"),
   ("strict-transport-security", "max-age=31536000; includesubdomains; preload"),
   ("vary", "accept-encoding"), ("vary", "origin"), ("x-content-type-options", "nosniff"),
   ("x-xss-protection", "1; mode=block"), (":status", "100"), (":status", "204"),
   (":status", "206"), (":status", "302"), (":status", "400"), (":status", "403"),
   (":status", "421"), (":status", "425"), (":status", "500"), ("accept-language", ""),
   ("access-control-allow-credentials", "FALSE"), ("access-control-allow-credentials", "TRUE"),
   ("access-control-allow-headers", "*"), ("access-control-allow-methods", "get"),
   ("access-control-allow-methods", "get, post, options"),
   ("access-control-allow-methods", "options"),
   ("access-control-expose-headers", "content-length"),
   ("access-control-request-headers", "content-type"), ("access-control-request-method", "get"),
   ("access-control-request-method", "post"), ("alt-svc", "clear"), ("authorization", ""),
   ("content-security-policy", "script-src 'none'; object-src 'none'; base-uri 'none'"),
   ("early-data", "1"), ("expect-ct", ""), ("forwarded", ""), ("if-range", ""), ("origin", ""),
   ("purpose", "prefetch"), ("server", ""), ("timing-allow-origin", "*"),
   ("upgrade-insecure-requests", "1"), ("user-agent", ""), ("x-forwarded-for", ""),
   ("x-frame-options", "deny"), ("x-frame-options", "sameorigin")].map fun (name, value) =>
    (ascii name, ascii value)

/-- A row of the table. -/
def staticRow (i : ℕ) : Bytes × Bytes := staticTable.getD i ([], [])

/-- The rows with a name, in ascending order: what the map built at start holds
for it. -/
def staticByName (name : Bytes) : List ℕ :=
  (List.range staticTable.length).filter fun i => (staticRow i).1 = name

/-- The best row for a field: its index, whether name and value match, and whether
the name does. -/
def lookupStatic (name value : Bytes) : ℕ × Bool × Bool :=
  match staticByName name with
  | [] => (0, false, false)
  | first :: rest =>
    match (first :: rest).find? fun i => (staticRow i).2 = value with
    | some i => (i, true, true)
    | none => (first, false, true)

theorem length_staticTable : staticTable.length = 99 := by
  decide +kernel

theorem mem_staticByName {name : Bytes} {i : ℕ} :
    i ∈ staticByName name ↔ i < staticTable.length ∧ (staticRow i).1 = name := by
  simp [staticByName]

/-- A match is a row with that name, and with that value when it is exact. -/
theorem lookupStatic_row {name value : Bytes} {idx : ℕ} {exact nameMatch : Bool}
    (h : lookupStatic name value = (idx, exact, nameMatch))
    (hmatch : exact = true ∨ nameMatch = true) :
    idx < staticTable.length ∧ (staticRow idx).1 = name ∧
      (exact = true → (staticRow idx).2 = value) := by
  unfold lookupStatic at h
  cases hb : staticByName name with
  | nil =>
    simp only [hb, Prod.mk.injEq] at h
    obtain ⟨-, rfl, rfl⟩ := h
    simp at hmatch
  | cons first rest =>
    have hrow : ∀ i ∈ first :: rest, i < staticTable.length ∧ (staticRow i).1 = name :=
      fun i hi => mem_staticByName.mp (hb ▸ hi)
    simp only [hb] at h
    cases hf : (first :: rest).find? fun i => (staticRow i).2 = value with
    | none =>
      simp only [hf, Prod.mk.injEq] at h
      obtain ⟨rfl, rfl, -⟩ := h
      obtain ⟨hlt, hname⟩ := hrow first List.mem_cons_self
      exact ⟨hlt, hname, fun h => by cases h⟩
    | some i =>
      simp only [hf, Prod.mk.injEq] at h
      obtain ⟨rfl, -⟩ := h
      obtain ⟨hlt, hname⟩ := hrow i (List.mem_of_find?_eq_some hf)
      exact ⟨hlt, hname, fun _ => by simpa using List.find?_some hf⟩

end Qpack
