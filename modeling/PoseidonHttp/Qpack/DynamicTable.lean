import PoseidonHttp.Lib.Fifo
import PoseidonHttp.Lib.PairArena
import PoseidonHttp.Qpack.StringLiteral

/-!
# The QPACK dynamic table

`qpack/dynamic_table.go`: entries at absolute indices that only grow, packed in an
arena with 32-bit offsets although capacities are 64-bit. A slice out of bounds
stops the program; the operations are partial, and `none` is that stop.

`Rep dt l` says that nothing was ever evicted: the table holds every entry that was
inserted, `l`, oldest first, so that an absolute index is an index into `l`. While
the capacity is at most `capacityBound` an insertion that fits keeps it
(`Rep.insert`), and references resolve to the list (`Rep.entryAt`,
`Rep.lookupDynamic`).
-/

namespace Qpack

open Header (Bytes pairSize entryOverhead)
open PairArena (word bytes)

/-- The values of a 64-bit word. -/
def u64 : ℕ := 2 ^ 64

structure DynamicTable where
  store : PairArena UInt8
  maxCapacity : ℕ
  capacity : ℕ
  size : ℕ
  insertCount : ℕ

/-- `entrySize`. -/
def entrySize (nameLen valueLen : ℕ) : ℕ := (nameLen + valueLen + entryOverhead) % u64

namespace DynamicTable

/-- `NewDynamicTable`. -/
def new (maxCapacity : ℕ) : DynamicTable := ⟨.empty, maxCapacity, 0, 0, 0⟩

variable (dt : DynamicTable)

/-- `Len`. -/
def count : ℕ := dt.store.count

def maxEntries : ℕ := dt.maxCapacity / entryOverhead

/-- The absolute index of the oldest live entry. -/
def oldestAbs : ℕ := dt.insertCount - dt.count

/-- `at`: the entry at an absolute index, if it is in the table. -/
def entryAt (abs : ℕ) : Option (Option (Bytes × Bytes)) :=
  if dt.count = 0 ∨ abs < dt.oldestAbs ∨ dt.insertCount ≤ abs then some none
  else (dt.store.read (abs - dt.oldestAbs)).map some

def canInsertWithoutEvict (nameLen valueLen : ℕ) : Bool :=
  (dt.size + entrySize nameLen valueLen) % u64 ≤ dt.capacity

/-- The scan of `lookupDynamic` from absolute index `a` on. -/
def lookupFrom (dt : DynamicTable) (name value : Bytes) : ℕ → ℕ → Option (Option ℕ)
  | 0, _ => some none
  | fuel + 1, a => do
    let present ← dt.entryAt a
    if present = some (name, value) then return some a
    else dt.lookupFrom name value fuel (a + 1)

/-- The oldest live entry equal to a field. -/
def lookupDynamic (name value : Bytes) : Option (Option ℕ) :=
  dt.lookupFrom name value dt.count dt.oldestAbs

/-- An index relative to the insert count. -/
def atInsertCountRelative (relIndex : ℕ) : Option (Option (Bytes × Bytes)) :=
  if dt.insertCount ≤ relIndex then some none else dt.entryAt (dt.insertCount - relIndex - 1)

/-- An index relative to the base of a section. -/
def atBaseRelative (base relIndex : ℕ) : Option (Option (Bytes × Bytes)) :=
  if base ≤ relIndex then some none else dt.entryAt (base - relIndex - 1)

/-- An index past the base of a section. -/
def atPostBase (base postIndex : ℕ) : Option (Option (Bytes × Bytes)) :=
  let abs := (base + postIndex) % u64
  if abs < base then some none else dt.entryAt abs

def evictOldest : Option DynamicTable :=
  if dt.count = 0 then some dt
  else do
    let e ← dt.store.span 0
    let store := dt.store.dropOldest e
    return {
      dt with
      size := (dt.size + u64 - entrySize e.nameLen e.valueLen) % u64
      -- an empty table starts over at slot 0 with an empty arena
      store := if store.count = 0 then ⟨⟨store.entries.slots, 0, 0, Nat.zero_le _⟩, [], 0⟩
        else store }

/-- The loop that evicts while `size + es` is over the capacity. -/
def evictFor (es : ℕ) : ℕ → DynamicTable → Option DynamicTable
  | 0, dt => some dt
  | fuel + 1, dt =>
    if dt.capacity < (dt.size + es) % u64 ∧ 0 < dt.count then
      dt.evictOldest.bind (evictFor es fuel)
    else some dt

def setCapacity (n : ℕ) : Option (Except Error DynamicTable) :=
  if dt.maxCapacity < n then some (.error .encoderStream)
  else (evictFor 0 dt.count { dt with capacity := n }).map .ok

def compactArena : Option DynamicTable :=
  dt.store.compact.map fun store => { dt with store := store }

/-- Insert an entry. The inner `none` is the answer that it cannot fit. -/
def insert (name value : Bytes) : Option (Option DynamicTable) :=
  let es := entrySize name.length value.length
  if dt.capacity < es then some none
  else do
    let dt ← evictFor es dt.count dt
    let dt : DynamicTable := {
      dt with
      store := dt.store.append name value
      size := (dt.size + es) % u64
      insertCount := (dt.insertCount + 1) % u64 }
    if dt.store.used * 2 % word < dt.store.arena.length % word ∧ 0 < dt.count then
      dt.compactArena.map some
    else return some dt

/-! ## A table that never evicted -/

/-- The largest capacity whose entries stay addressable by 32-bit offsets: every
entry is accounted 32 bytes more than it takes in the arena. -/
def capacityBound : ℕ := 2 ^ 32 + 31

/-- The table holds everything that was inserted, `l`, oldest first. -/
structure Rep (dt : DynamicTable) (l : List (Bytes × Bytes)) : Prop where
  holds : dt.store.Holds l
  arena : dt.store.arena.length = bytes l
  insertCount : dt.insertCount = l.length
  size : dt.size = Fifo.weight pairSize l
  fits : dt.size ≤ dt.capacity
  capacity : dt.capacity ≤ capacityBound

/-- What an insertion leaves alone. -/
def Frame (dt dt' : DynamicTable) : Prop :=
  dt'.maxCapacity = dt.maxCapacity ∧ dt'.capacity = dt.capacity

variable {dt} {l : List (Bytes × Bytes)}

theorem Rep.count_eq (h : Rep dt l) : dt.count = l.length := h.holds.count_eq

/-- Nothing was evicted, so the oldest entry is the first one. -/
theorem Rep.oldestAbs_eq (h : Rep dt l) : dt.oldestAbs = 0 := by
  rw [oldestAbs, h.count_eq, h.insertCount, Nat.sub_self]

theorem rep_new (maxCapacity : ℕ) : Rep (new maxCapacity) [] :=
  ⟨PairArena.holds_empty, rfl, rfl, rfl, le_rfl, Nat.zero_le _⟩

/-- Absolute indices are indices into the list. -/
theorem Rep.entryAt (h : Rep dt l) (abs : ℕ) : dt.entryAt abs = some l[abs]? := by
  simp only [DynamicTable.entryAt, h.oldestAbs_eq, h.count_eq, h.insertCount, Nat.sub_zero]
  by_cases hlt : abs < l.length
  · rw [if_neg (by omega), h.holds.read hlt, List.getElem?_eq_getElem hlt]
    rfl
  · rw [if_pos (by omega), List.getElem?_eq_none (by omega)]

/-- The lookup finds the first entry equal to the field. -/
theorem Rep.lookupDynamic (h : Rep dt l) (name value : Bytes) :
    dt.lookupDynamic name value = some (l.findIdx? (· = (name, value))) := by
  suffices hall : ∀ suf pre : List (Bytes × Bytes), l = pre ++ suf →
      dt.lookupFrom name value suf.length pre.length =
        some ((suf.findIdx? (· = (name, value))).map (pre.length + ·)) by
    have := hall l [] rfl
    rw [DynamicTable.lookupDynamic, h.count_eq, h.oldestAbs_eq]
    simpa using this
  intro suf
  induction suf with
  | nil =>
    intro pre _
    rfl
  | cons e suf ih =>
    intro pre hl
    have hread : dt.entryAt pre.length = some (some e) := by
      rw [h.entryAt, hl]
      simp
    have hrest := ih (pre ++ [e]) (by simp [hl])
    rw [List.length_append, List.length_singleton] at hrest
    simp only [lookupFrom, List.length_cons, hread, Option.bind_eq_bind, Option.bind_some,
      Option.some.injEq, hrest, List.findIdx?_cons]
    by_cases he : e = (name, value)
    · simp [he]
    · simp only [he, if_false, decide_false, Bool.false_eq_true]
      cases suf.findIdx? (· = (name, value)) <;> simp [Nat.add_assoc, Nat.add_comm 1]

/-- Setting the capacity of a table that fits it evicts nothing. -/
theorem Rep.setCapacity (h : Rep dt l) {n : ℕ} (hmax : n ≤ dt.maxCapacity)
    (hbound : n ≤ capacityBound) (hfits : dt.size ≤ n) :
    dt.setCapacity n = some (.ok { dt with capacity := n }) ∧
      Rep { dt with capacity := n } l := by
  have hu : n < u64 := Nat.lt_of_le_of_lt hbound (by decide)
  have hloop : ∀ fuel, evictFor 0 fuel { dt with capacity := n } = some { dt with capacity := n } := by
    intro fuel
    cases fuel with
    | zero => rfl
    | succ fuel =>
      have hmod : (dt.size + 0) % u64 = dt.size := Nat.mod_eq_of_lt (by omega)
      simp only [evictFor, hmod]
      rw [if_neg (by omega)]
  refine ⟨?_, h.holds, h.arena, h.insertCount, h.size, hfits, hbound⟩
  rw [DynamicTable.setCapacity, if_neg (by omega), hloop]
  rfl

/-- An insertion that fits the capacity evicts nothing and appends to the list. -/
theorem Rep.insert (h : Rep dt l) {name value : Bytes}
    (hfits : dt.size + pairSize (name, value) ≤ dt.capacity) :
    ∃ dt', dt.insert name value = some (some dt') ∧ Rep dt' (l ++ [(name, value)]) ∧
      Frame dt dt' := by
  have hcap : dt.capacity ≤ 2 ^ 32 + 31 := h.capacity
  have hword : word = 2 ^ 32 := rfl
  have hu : u64 = 2 ^ 64 := rfl
  have hover : entryOverhead = 32 := rfl
  have hes : entrySize name.length value.length = pairSize (name, value) :=
    Nat.mod_eq_of_lt (by simp only [pairSize] at hfits; omega)
  have hweight : Fifo.weight pairSize (l ++ [(name, value)]) =
      bytes (l ++ [(name, value)]) + (l ++ [(name, value)]).length * entryOverhead :=
    PairArena.sum_size_eq entryOverhead _
  have hweight' : Fifo.weight pairSize (l ++ [(name, value)]) =
      dt.size + pairSize (name, value) := by
    simp [h.size]
  -- the 32 bytes of overhead of each entry keep its bytes below the offset range
  have hbytes : bytes (l ++ [(name, value)]) < word := by
    simp only [List.length_append, List.length_singleton, hover] at hweight
    omega
  have hlen : l.length + 1 < u64 := by
    simp only [List.length_append, List.length_singleton, hover] at hweight
    omega
  have hloop : evictFor (pairSize (name, value)) dt.count dt = some dt := by
    cases dt.count with
    | zero => rfl
    | succ fuel =>
      have hmod : (dt.size + pairSize (name, value)) % u64 = dt.size + pairSize (name, value) :=
        Nat.mod_eq_of_lt (by omega)
      simp only [evictFor, hmod]
      rw [if_neg (by omega)]
  have hroom : dt.store.arena.length + name.length + value.length < word := by
    rw [h.arena]
    simpa [Nat.add_assoc] using hbytes
  have hholds := h.holds.append hroom
  have harena : (dt.store.append name value).arena.length =
      bytes (l ++ [(name, value)]) := by
    simp [PairArena.append, h.arena]
  have hrep : ∀ store : PairArena UInt8, store.Holds (l ++ [(name, value)]) →
      store.arena.length = bytes (l ++ [(name, value)]) →
      Rep ⟨store, dt.maxCapacity, dt.capacity, (dt.size + pairSize (name, value)) % u64,
        (dt.insertCount + 1) % u64⟩ (l ++ [(name, value)]) := by
    intro store hst har
    have hsz : (dt.size + pairSize (name, value)) % u64 = dt.size + pairSize (name, value) :=
      Nat.mod_eq_of_lt (by omega)
    refine ⟨hst, har, ?_, ?_, ?_, h.capacity⟩
    · simp only [h.insertCount, List.length_append, List.length_singleton]
      exact Nat.mod_eq_of_lt hlen
    · simp only [hsz, hweight']
    · simpa only [hsz] using hfits
  simp only [DynamicTable.insert, hes, if_neg (show ¬ dt.capacity < pairSize (name, value) by omega),
    hloop, Option.bind_eq_bind, Option.bind_some]
  split_ifs
  · obtain ⟨store, hc, hst, har⟩ := hholds.compact hbytes
    refine ⟨_, ?_, hrep store hst har, rfl, rfl⟩
    simp [compactArena, hc]
  · exact ⟨_, rfl, hrep _ hholds harena, rfl, rfl⟩

/-! ## The insert count -/

variable {dt' : DynamicTable}

theorem insertCount_evictOldest (h : dt.evictOldest = some dt') : dt'.insertCount = dt.insertCount := by
  unfold evictOldest at h
  split_ifs at h
  · rw [Option.some.inj h]
  · obtain ⟨e, -, h⟩ := Option.bind_eq_some_iff.mp h
    rw [← Option.some.inj h]

theorem insertCount_evictFor {es fuel : ℕ} (h : evictFor es fuel dt = some dt') :
    dt'.insertCount = dt.insertCount := by
  induction fuel generalizing dt with
  | zero => rw [Option.some.inj h]
  | succ fuel ih =>
    rw [evictFor] at h
    split_ifs at h
    · obtain ⟨dt₁, hone, hrest⟩ := Option.bind_eq_some_iff.mp h
      rw [ih hrest, insertCount_evictOldest hone]
    · rw [Option.some.inj h]

theorem insertCount_setCapacity {n : ℕ} (h : dt.setCapacity n = some (.ok dt')) :
    dt'.insertCount = dt.insertCount := by
  unfold setCapacity at h
  split_ifs at h
  · cases Option.some.inj h
  · obtain ⟨dt₁, hloop, hok⟩ := Option.map_eq_some_iff.mp h
    rw [← Except.ok.inj hok, insertCount_evictFor hloop]

theorem insertCount_insert {name value : Bytes} (h : dt.insert name value = some (some dt')) :
    dt'.insertCount = (dt.insertCount + 1) % u64 := by
  unfold DynamicTable.insert at h
  dsimp only at h
  split_ifs at h
  · cases Option.some.inj h
  · obtain ⟨dt₁, hloop, h⟩ := Option.bind_eq_some_iff.mp h
    rw [← insertCount_evictFor hloop]
    split_ifs at h
    · obtain ⟨dt₂, hcompact, hdt⟩ := Option.map_eq_some_iff.mp h
      obtain ⟨store, -, rfl⟩ := Option.map_eq_some_iff.mp hcompact
      rw [← Option.some.inj hdt]
    · rw [← Option.some.inj (Option.some.inj h)]

end DynamicTable

end Qpack
