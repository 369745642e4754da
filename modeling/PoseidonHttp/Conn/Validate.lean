import PoseidonHttp.Header

/-!
# Validation of response fields

`validate.go` on the response side, and the field scans of `handler.go`: which names
and values are legal, what a block of fields must look like to be a response or a
trailer section, and what it declares about the body.

`validateResponseFields_response`: a response that is accepted is `:status` followed by
regular fields.
-/

namespace Conn

open Header (Bytes Field ascii)

/-! ## Names and values -/

/-- The punctuation of a token. -/
def tokenMarks : Bytes := ascii "!#$%&'*+-.^_`|~"

def validFieldName (name : Bytes) : Bool :=
  !name.isEmpty && name.all fun c =>
    0x61 ≤ c && c ≤ 0x7a || 0x30 ≤ c && c ≤ 0x39 || tokenMarks.contains c

/-- SP or HTAB. -/
def isEdgeSpace (c : UInt8) : Bool := c == 0x20 || c == 0x09

def validFieldValue (value : Bytes) : Bool :=
  value.all (fun c => c != 0x00 && c != 0x0a && c != 0x0d) &&
    !value.head?.any isEdgeSpace && !value.getLast?.any isEdgeSpace

def forbiddenResponseField (name : Bytes) : Bool :=
  name ∈ ["connection", "transfer-encoding", "keep-alive", "upgrade", "proxy-connection",
    "te"].map ascii

def statusName : Bytes := ascii ":status"

/-- A name that starts with a colon. -/
def isPseudo (name : Bytes) : Bool := name.head? == some 0x3a

/-- The loop of `validateResponseFields`, with what it has seen so far. -/
def validateFieldsFrom (isTrailer : Bool) : Bool → Bool → List Field → Bool
  | _, sawStatus, [] => isTrailer || sawStatus
  | sawRegular, sawStatus, f :: fs =>
    if isPseudo f.name then
      if sawRegular then false
      else if isTrailer ∨ f.name ≠ statusName ∨ sawStatus then false
      else if validFieldValue f.value then validateFieldsFrom isTrailer sawRegular true fs
      else false
    else if validFieldName f.name ∧ validFieldValue f.value ∧ forbiddenResponseField f.name = false
    then validateFieldsFrom isTrailer true sawStatus fs
    else false

/-- `validateResponseFields`; a block after the final response is a trailer section. -/
def validateResponseFields (headersReceived : Bool) (fields : List Field) : Bool :=
  validateFieldsFrom headersReceived false false fields

/-! ## What a block declares -/

/-- `isInformationalStatus`: the first `:status` has the form 1xx. -/
def isInformationalStatus : List Field → Bool
  | [] => false
  | f :: fs =>
    if f.name = statusName then f.value.length = 3 ∧ f.value.head? = some 0x31
    else isInformationalStatus fs

/-- The loop of `parseDecimalDigits`. -/
def parseDigitsFrom : ℕ → Bytes → Option ℕ
  | n, [] => some n
  | n, c :: cs =>
    if c < 0x30 ∨ 0x39 < c then none
    else
      let d := (c - 0x30).toNat
      if (2 ^ 63 - 1 - d) / 10 < n then none else parseDigitsFrom (n * 10 + d) cs

/-- `parseDecimalDigits`: a nonempty run of digits that fits an `int64`. -/
def parseDecimalDigits (b : Bytes) : Option ℕ :=
  if b = [] then none else parseDigitsFrom 0 b

def numericStatus : List Field → ℕ
  | [] => 0
  | f :: fs =>
    if f.name = statusName then
      match parseDecimalDigits f.value with
      | some n => if 599 < n then 0 else n
      | none => 0
    else numericStatus fs

/-- A response's Content-Length declaration. -/
structure ContentLength where
  declared : ℕ := 0
  present : Bool := false
  valid : Bool := false
  deriving DecidableEq

/-- The loop of `responseContentLength`, with the value seen so far. -/
def contentLengthFrom : Option ℕ → List Field → ContentLength
  | none, [] => {}
  | some n, [] => ⟨n, true, true⟩
  | seen, f :: fs =>
    if f.name = ascii "content-length" then
      match parseDecimalDigits f.value with
      | none => ⟨0, true, false⟩
      | some v =>
        if seen = none ∨ seen = some v then contentLengthFrom (some v) fs else ⟨0, true, false⟩
    else contentLengthFrom seen fs

def responseContentLength (fields : List Field) : ContentLength := contentLengthFrom none fields

def statusCanHaveContent (status : ℕ) (reqIsHead : Bool) : Bool :=
  !reqIsHead && status != 204 && status != 304

/-! ## What is accepted -/

/-- A field that is neither malformed nor connection-specific. -/
def Regular (f : Field) : Prop :=
  validFieldName f.name = true ∧ validFieldValue f.value = true ∧
    forbiddenResponseField f.name = false

/-- A colon is no token character, so a pseudo-header field is not regular. -/
theorem Regular.not_pseudo {f : Field} (h : Regular f) : isPseudo f.name = false := by
  rcases h with ⟨hname, _, _⟩
  cases hn : f.name with
  | nil => simp [validFieldName, hn] at hname
  | cons c cs =>
    simp only [validFieldName, hn, Bool.and_eq_true, List.all_eq_true] at hname
    have hc := hname.2 c (List.mem_cons_self ..)
    by_contra hp
    have hcolon : c = 0x3a := by simpa [isPseudo] using hp
    subst hcolon
    revert hc
    decide

variable {isTrailer sawRegular sawStatus : Bool} {fields : List Field}

/-- In a trailer section, and in a response past its `:status`, only regular fields
are accepted. -/
theorem validateFieldsFrom_settled (h : isTrailer = true ∨ sawStatus = true) :
    validateFieldsFrom isTrailer sawRegular sawStatus fields = true ↔ ∀ f ∈ fields, Regular f := by
  induction fields generalizing sawRegular with
  | nil => simpa [validateFieldsFrom] using h
  | cons f fs ih =>
    unfold validateFieldsFrom
    by_cases hp : isPseudo f.name = true
    · have hf : ¬ Regular f := fun hr => by simp [hr.not_pseudo] at hp
      have hrefused : isTrailer = true ∨ f.name ≠ statusName ∨ sawStatus = true := by tauto
      simp [hp, hf, hrefused]
    · simp [hp, ih, Regular, and_assoc]

/-- A response that starts with a regular field never gets its `:status`. -/
theorem validateFieldsFrom_late : validateFieldsFrom false true false fields = false := by
  induction fields with
  | nil => rfl
  | cons f fs ih =>
    unfold validateFieldsFrom
    simp [ih]

/-- A response is accepted when it is `:status`, once and first, and regular fields. -/
theorem validateResponseFields_response :
    validateResponseFields false fields = true ↔ ∃ status rest, fields = status :: rest ∧
      status.name = statusName ∧ validFieldValue status.value = true ∧ ∀ f ∈ rest, Regular f := by
  cases fields with
  | nil => simp [validateResponseFields, validateFieldsFrom]
  | cons f fs =>
    unfold validateResponseFields validateFieldsFrom
    by_cases hp : isPseudo f.name = true
    · simp [hp, validateFieldsFrom_settled]
    · have hname : f.name ≠ statusName := by
        intro hn
        exact hp (by rw [hn]; rfl)
      simp [hp, validateFieldsFrom_late, hname]

end Conn
