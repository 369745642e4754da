import Mathlib.Data.UInt

/-!
# Header fields

The vocabulary of `header/header.go` that the compressed HTTP versions share.
`IndexingMode` is a byte with three named values, as in the source: a caller can
build one that is none of the three.
-/

namespace Header

/-- A byte string. -/
abbrev Bytes := List UInt8

/-- The bytes of an ASCII text. -/
def ascii (s : String) : Bytes := s.toList.map fun c => UInt8.ofNat c.toNat

/-- How a field is represented in a compressed header block. -/
abbrev IndexingMode := UInt8

def indexIncremental : IndexingMode := 0

def indexWithout : IndexingMode := 1

def indexNever : IndexingMode := 2

/-- One of the three named modes. -/
def IndexingMode.Declared (m : IndexingMode) : Prop :=
  m = indexIncremental ∨ m = indexWithout ∨ m = indexNever

instance (m : IndexingMode) : Decidable m.Declared :=
  inferInstanceAs (Decidable (_ ∨ _ ∨ _))

/-- A name and a value, and the representation asked for. -/
structure Field where
  name : Bytes
  value : Bytes
  indexing : IndexingMode
  deriving DecidableEq, Repr

/-- The accounting overhead of a dynamic-table entry. -/
def entryOverhead : ℕ := 32

/-- Whether the field is marked never-indexed. -/
def Field.sensitive (f : Field) : Bool := f.indexing == indexNever

/-- The field as it is compared after a round trip. -/
def Field.pair (f : Field) : Bytes × Bytes := (f.name, f.value)

/-- The accounted size of a name and a value, before any wrap-around. -/
def pairSize (x : Bytes × Bytes) : ℕ := x.1.length + x.2.length + entryOverhead

/-- `Field.Size`, a 32-bit sum. -/
def Field.size (f : Field) : ℕ := pairSize f.pair % 2 ^ 32

end Header
