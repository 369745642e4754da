import PoseidonHttp.Hpack.DynamicTable
import PoseidonHttp.Hpack.StaticTable
import PoseidonHttp.Hpack.StringLiteral

/-!
# The HPACK encoder

`encoder.go`. The encoder never Huffman-codes a literal. Its table limit is the
smaller of the peer's and the caller's; a change is announced by a size update at
the head of the next block. The switch on the indexing mode has a default branch:
every byte that is neither `indexNever` nor `indexWithout` is written as a literal
with incremental indexing, but only `indexIncremental` inserts.
-/

namespace Hpack

open Header (Bytes IndexingMode Field indexIncremental indexWithout indexNever)

structure Encoder where
  dt : DynamicTable
  peerMaxSize : ℕ
  callerLimit : ℕ
  localLimit : ℕ
  pendingSizeUpdate : ℕ
  hasPendingUpdate : Bool

namespace Encoder

/-- `NewEncoder`; `hash` is the hash function its index draws. -/
def new (hash : Bytes → UInt64) : Encoder where
  dt := { DynamicTable.new defaultMaxDynamicTableSize with index := some (.new hash) }
  peerMaxSize := defaultMaxDynamicTableSize
  callerLimit := defaultMaxDynamicTableSize
  localLimit := defaultMaxDynamicTableSize
  pendingSizeUpdate := 0
  hasPendingUpdate := false

variable (e : Encoder)

def recomputeLocalLimit : Option Encoder :=
  let newLimit := if e.callerLimit < e.peerMaxSize then e.callerLimit else e.peerMaxSize
  if newLimit = e.localLimit then some e
  else (e.dt.setMaxSize newLimit).map fun dt =>
    { e with localLimit := newLimit, pendingSizeUpdate := newLimit, hasPendingUpdate := true
             dt := dt }

def setMaxDynamicTableSize (n : ℕ) : Option Encoder :=
  recomputeLocalLimit { e with peerMaxSize := n }

def setMaxDynamicTableSizeLimit (n : ℕ) : Option Encoder :=
  recomputeLocalLimit { e with callerLimit := n }

/-- The bytes of a pending size update, and the encoder without it. -/
def maybeEmitSizeUpdate : Bytes × Encoder :=
  if e.hasPendingUpdate then
    (encodeInteger 5 0x20 e.pendingSizeUpdate, { e with hasPendingUpdate := false })
  else ([], e)

/-- The lookup goes through the index, which an encoder always has. -/
def dynamicLookup (name value : Bytes) : Option (ℕ × Bool) :=
  e.dt.index.bind fun x => x.lookup e.dt name value

/-- The index of a name for a literal: static first, then dynamic, else 0. -/
def nameIndex (staticIdx dynIdx : ℕ) : ℕ :=
  if staticIdx ≠ 0 then staticIdx else if dynIdx ≠ 0 then dynIdx + staticTableLen else 0

/-- The first integer of a literal, by indexing mode. -/
def literalPrefix (mode : IndexingMode) (nameIdx : ℕ) : Bytes :=
  if mode = indexNever then encodeInteger 4 0x10 nameIdx
  else if mode = indexWithout then encodeInteger 4 0x00 nameIdx
  else encodeInteger 6 0x40 nameIdx

/-- What follows the prefix of a literal: the name unless it is indexed, and the
value. -/
def literalBody (nameIdx : ℕ) (name value : Bytes) : Bytes :=
  (if nameIdx = 0 then encodeStringLiteral name false else []) ++ encodeStringLiteral value false

/-- `writeFieldAlreadyFlushedSize`: the bytes of one field and the encoder after it. -/
def writeFieldAlreadyFlushedSize (name value : Bytes) (mode : IndexingMode) :
    Option (Bytes × Encoder) :=
  let indexable := mode ≠ indexNever
  let (staticIdx, fullStatic) := staticIndex name value
  if fullStatic ∧ indexable then some (encodeInteger 7 0x80 staticIdx, e)
  else do
    let (dynIdx, fullDyn) ← e.dynamicLookup name value
    if fullDyn ∧ indexable then return (encodeInteger 7 0x80 (dynIdx + staticTableLen), e)
    else
      let nameIdx := nameIndex staticIdx dynIdx
      let bytes := literalPrefix mode nameIdx ++ literalBody nameIdx name value
      if mode = indexIncremental then
        let dt ← e.dt.add name value
        return (bytes, { e with dt := dt })
      else return (bytes, e)

/-- The loop of `EncodeBlock`. -/
def writeFields (e : Encoder) : List Field → Option (Bytes × Encoder)
  | [] => some ([], e)
  | f :: fields => do
    let (bytes, e) ← e.writeFieldAlreadyFlushedSize f.name f.value f.indexing
    let (rest, e) ← e.writeFields fields
    return (bytes ++ rest, e)

/-- The bytes `EncodeBlock` appends. -/
def encodeBlock (fields : List Field) : Option (Bytes × Encoder) := do
  let (update, e) := e.maybeEmitSizeUpdate
  let (bytes, e) ← e.writeFields fields
  return (update ++ bytes, e)

/-- The bytes `WriteField` appends. -/
def writeField (name value : Bytes) (mode : IndexingMode) : Option (Bytes × Encoder) := do
  let (update, e) := e.maybeEmitSizeUpdate
  let (bytes, e) ← e.writeFieldAlreadyFlushedSize name value mode
  return (update ++ bytes, e)

end Encoder

end Hpack
