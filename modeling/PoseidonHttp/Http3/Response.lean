import PoseidonHttp.Header

/-!
# HTTP/3 response sections

`validate.go` on the response side and `response.go`: which names and values are legal, what a
field section must look like to be a response or a trailer section, and what it declares about the
body. The functions take the field list that QPACK makes of a section.

`decodeResponseHeaders_eq_some` and `decodeTrailers_eq_some` say what is accepted: a response is
`:status` with a status code from 100 to 599 and then regular fields, a trailer section is regular
fields only.
-/

namespace Http3

open Header (Bytes Field ascii)

/-! ## Names and values -/

/-- A lowercase token character. -/
def fieldNameByte (c : UInt8) : Bool :=
  0x61 ≤ c && c ≤ 0x7a || 0x30 ≤ c && c ≤ 0x39 || (ascii "!#$%&'*+-.^_`|~").contains c

def validFieldName (name : Bytes) : Bool := decide (name.length ≠ 0) && name.all fieldNameByte

/-- SP or HTAB. -/
def whitespace (c : UInt8) : Bool := c == 0x20 || c == 0x09

def validFieldValue (value : Bytes) : Bool :=
  value.all (fun c => !(c == 0x00 || c == 0x0a || c == 0x0d)) &&
    !(value.head?.any whitespace || value.getLast?.any whitespace)

def connectionSpecificField (name : Bytes) : Bool :=
  (["connection", "transfer-encoding", "keep-alive", "upgrade", "proxy-connection"].map ascii).contains name

def forbiddenResponseField (name : Bytes) : Bool :=
  name == ascii "te" || connectionSpecificField name

/-! ## Numbers -/

/-- The digits of `parseStatus`. -/
def statusFrom : ℕ → Bytes → Option ℕ
  | n, [] => some n
  | n, c :: cs => if c < 0x30 ∨ 0x39 < c then none else statusFrom (n * 10 + (c - 0x30).toNat) cs

def parseStatus (v : Bytes) : Option ℕ :=
  if v.length ≠ 3 then none
  else
    match statusFrom 0 v with
    | none => none
    | some n => if n < 100 ∨ 599 < n then none else some n

/-- The digits of `parseDecimal`. -/
def decimalFrom : ℕ → Bytes → Option ℕ
  | n, [] => some n
  | n, c :: cs =>
    if c < 0x30 ∨ 0x39 < c then none
    else if (2 ^ 62 - 9) / 10 < n then none
    else decimalFrom (n * 10 + (c - 0x30).toNat) cs

def parseDecimal (v : Bytes) : Option ℕ := if v.length = 0 then none else decimalFrom 0 v

/-! ## Sections -/

/-- The head of a response. -/
structure Head where
  status : ℕ
  headers : List Field
  deriving DecidableEq

structure Response where
  status : ℕ
  headers : List Field
  interim : List Head := []
  trailers : List Field := []
  deriving DecidableEq

def statusName : Bytes := ascii ":status"

/-- The copy of a field that is kept. -/
def kept (f : Field) : Field := ⟨f.name, f.value, Header.indexIncremental⟩

/-- A regular field that may stand in a response. -/
def regularField (f : Field) : Bool :=
  validFieldName f.name && validFieldValue f.value && !forbiddenResponseField f.name

/-- The callback of `DecodeResponseHeaders`, over the fields of the section. -/
def responseFrom : Option ℕ → Bool → List Field → List Field → Option Head
  | status, _, headers, [] => status.map fun s => ⟨s, headers⟩
  | status, sawRegular, headers, f :: fs =>
    if f.name.length = 0 then none
    else if f.name.head? = some 0x3a then
      if sawRegular then none
      else if f.name ≠ statusName ∨ status.isSome then none
      else
        match parseStatus f.value with
        | none => none
        | some s => responseFrom (some s) sawRegular headers fs
    else if regularField f then responseFrom status true (headers ++ [kept f]) fs
    else none

/-- `DecodeResponseHeaders`, where the section has these fields; `none` is `ErrH3Message`. -/
def decodeResponseHeaders (fields : List Field) : Option Head := responseFrom none false [] fields

/-- The callback of `DecodeTrailers`. -/
def trailersFrom : List Field → List Field → Option (List Field)
  | trailers, [] => some trailers
  | trailers, f :: fs =>
    if f.name.length = 0 ∨ f.name.head? = some 0x3a then none
    else if regularField f then trailersFrom (trailers ++ [kept f]) fs
    else none

def decodeTrailers (fields : List Field) : Option (List Field) := trailersFrom [] fields

variable {f : Field} {fields headers trailers : List Field}

/-- A colon is no token character. -/
theorem head_ne_colon_of_regularField (h : regularField f = true) :
    f.name.length ≠ 0 ∧ f.name.head? ≠ some 0x3a := by
  simp only [regularField, validFieldName, Bool.and_eq_true, decide_eq_true_eq, List.all_eq_true] at h
  refine ⟨h.1.1.1, ?_⟩
  intro hhead
  have hcolon := h.1.1.2 0x3a (List.mem_of_mem_head? hhead)
  revert hcolon
  decide

theorem trailersFrom_eq_some {acc : List Field} :
    trailersFrom acc fields = some trailers ↔
      (∀ f ∈ fields, regularField f = true) ∧ trailers = acc ++ fields.map kept := by
  induction fields generalizing acc with
  | nil =>
    rw [trailersFrom, Option.some.injEq, eq_comm]
    simp
  | cons f fs ih =>
    rw [trailersFrom, List.forall_mem_cons]
    by_cases hregular : regularField f = true
    · obtain ⟨hne, hcolon⟩ := head_ne_colon_of_regularField hregular
      rw [if_neg (not_or.mpr ⟨hne, hcolon⟩), if_pos hregular, ih]
      simp [hregular]
    · simp [hregular]

/-- A trailer section is accepted when all of its fields are regular. -/
theorem decodeTrailers_eq_some :
    decodeTrailers fields = some trailers ↔
      (∀ f ∈ fields, regularField f = true) ∧ trailers = fields.map kept :=
  trailersFrom_eq_some

/-- Once the status has come, the rest is read as trailers are. -/
theorem responseFrom_some {s : ℕ} {saw : Bool} :
    responseFrom (some s) saw headers fields = (trailersFrom headers fields).map (⟨s, ·⟩) := by
  induction fields generalizing saw headers with
  | nil => rfl
  | cons f fs ih =>
    rw [responseFrom, trailersFrom]
    split_ifs <;> simp_all

/-- Past a regular field the status comes too late. -/
theorem responseFrom_late : responseFrom none true headers fields = none := by
  induction fields generalizing headers with
  | nil => rfl
  | cons f fs ih =>
    rw [responseFrom, ih]
    simp

/-- A response section is `:status`, once and first, and regular fields. -/
theorem decodeResponseHeaders_eq_some {h : Head} :
    decodeResponseHeaders fields = some h ↔ ∃ st rest, fields = st :: rest ∧ st.name = statusName ∧
      parseStatus st.value = some h.status ∧ (∀ f ∈ rest, regularField f = true) ∧
      h.headers = rest.map kept := by
  unfold decodeResponseHeaders
  cases fields with
  | nil => simp [responseFrom]
  | cons st rest =>
    rw [responseFrom]
    by_cases hname : st.name = statusName
    · have hcolon : st.name.head? = some 0x3a := by rw [hname]; rfl
      have hne : st.name.length ≠ 0 := by rw [hname]; decide
      rw [if_neg hne, if_pos hcolon, if_neg Bool.false_ne_true, if_neg (by simp [hname])]
      obtain ⟨status, fields⟩ := h
      cases hs : parseStatus st.value with
      | none => simp [hs]
      | some s => simp [responseFrom_some, trailersFrom_eq_some, hname, hs, and_comm]
    · simp [hname, responseFrom_late]

theorem status_of_decodeResponseHeaders {h : Head} (hh : decodeResponseHeaders fields = some h) :
    100 ≤ h.status ∧ h.status ≤ 599 := by
  obtain ⟨st, rest, -, -, hs, -⟩ := decodeResponseHeaders_eq_some.mp hh
  unfold parseStatus at hs
  split_ifs at hs
  split at hs
  · cases hs
  · split_ifs at hs
    cases hs
    omega

/-! ## Content-Length -/

/-- The loop of `responseContentLength`: the value, whether there is one, whether it is valid. -/
def contentLengthFrom : ℕ → Bool → List Field → ℕ × Bool × Bool
  | n, present, [] => (n, present, present)
  | n, present, f :: fs =>
    if f.name ≠ ascii "content-length" then contentLengthFrom n present fs
    else
      match parseDecimal f.value with
      | none => (0, true, false)
      | some v => if present ∧ v ≠ n then (0, true, false) else contentLengthFrom v true fs

def responseContentLength (headers : List Field) : ℕ × Bool × Bool := contentLengthFrom 0 false headers

def canHaveContent (status : ℕ) (method : Bytes) : Bool :=
  if method = ascii "HEAD" then false else status != 204 && status != 304

def contentLengthMatches (resp : Response) (method : Bytes) (bodyLen : ℕ) : Bool :=
  if canHaveContent resp.status method then
    let (n, present, valid) := responseContentLength resp.headers
    if present then valid && n == bodyLen else true
  else true

end Http3
