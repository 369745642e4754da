import PoseidonHttp.Hpack.DynamicIndex
import PoseidonHttp.Lib.Fifo
import PoseidonHttp.Lib.PairArena

/-!
# The HPACK dynamic table

`dynamic_table.go`: a ring of spans over a packed arena, with 32-bit sizes, an
eviction loop, and an optional hashed index. Slice expressions that go out of
bounds stop the program, so the operations are partial; `none` is that stop.

`Rep M d l` says that the table stands for the entries `l`, newest first, under
limits of at most `M`. With `3 * M ≤ 2^32` the arena never outgrows its 32-bit
offsets, nothing stops, and the operations are those of a weight-bounded queue
(`Rep.add`, `Rep.setMaxSize`), the lookups those of the list (`Rep.entryAt`,
`Rep.lookup`).
-/

namespace Hpack

open Header (Bytes pairSize entryOverhead)
open PairArena (word bytes holds_empty)
open DynamicTableIndex (newestId)

/-- The table size before any setting. -/
def defaultMaxDynamicTableSize : ℕ := 4096

/-- One direction's dynamic table. -/
structure DynamicTable where
  store : PairArena UInt8
  maxSize : ℕ
  size : ℕ
  index : Option DynamicTableIndex

/-- `entrySize`. -/
def entrySize (name value : Bytes) : ℕ :=
  (name.length % word + value.length % word + entryOverhead) % word

namespace DynamicTable

/-- `newDynamicTable`. -/
def new (maxSize : ℕ) : DynamicTable := ⟨.empty, maxSize, 0, none⟩

variable (d : DynamicTable)

/-- `len`. -/
def count : ℕ := d.store.count

/-- `at`: the `i`-th newest entry, from 1. -/
def entryAt (i : ℕ) : Option (Bytes × Bytes) :=
  if i < 1 ∨ d.count < i then some ([], []) else d.store.read (d.count - i)

/-- The index without the entry about to be evicted. -/
def unindexOldest : Option (Option DynamicTableIndex) :=
  match d.index with
  | none => some none
  | some x => (d.entryAt d.count).map fun e => some (x.remove e.1 e.2 d.count)

def evictOldest : Option DynamicTable :=
  if d.count = 0 then some d
  else do
    let e ← d.store.span 0
    let index ← d.unindexOldest
    let store := d.store.dropOldest e
    return {
      d with
      index := index
      size := (d.size + word - (e.nameLen + e.valueLen + entryOverhead) % word) % word
      store := if store.count = 0 then ⟨store.entries, [], store.used⟩ else store }

/-- The loop that evicts while `size + es` is over the limit. Every turn removes
an entry, so `fuel` starts at the number of entries. -/
def evictFor (es : ℕ) : ℕ → DynamicTable → Option DynamicTable
  | 0, d => some d
  | fuel + 1, d =>
    if d.maxSize < (d.size + es) % word ∧ 0 < d.count then
      d.evictOldest.bind (evictFor es fuel)
    else some d

def clear : DynamicTable :=
  { d with index := d.index.map (·.clear), store := .empty, size := 0 }

def compactArena : Option DynamicTable :=
  d.store.compact.map fun store => { d with store := store }

/-- Insert an entry; one that is over the limit on its own empties the table. -/
def add (name value : Bytes) : Option DynamicTable :=
  let es := entrySize name value
  if d.maxSize < es then some d.clear
  else do
    let d ← evictFor es d.count d
    let d : DynamicTable := {
      d with
      store := d.store.append name value
      size := (d.size + es) % word
      index := d.index.map (·.add name value) }
    if d.store.used * 2 % word < d.store.arena.length % word ∧ 0 < d.count then d.compactArena
    else return d

def setMaxSize (n : ℕ) : Option DynamicTable :=
  evictFor 0 d.count { d with maxSize := n }

/-- The loop of `lookupAfterCollision`, from entry `i` on. -/
def scanFrom (d : DynamicTable) (name value : Bytes) : ℕ → ℕ → ℕ → Option (ℕ × Bool)
  | 0, _, nameOnly => some (nameOnly, false)
  | fuel + 1, i, nameOnly => do
    let e ← d.entryAt i
    if e.1 ≠ name then d.scanFrom name value fuel (i + 1) nameOnly
    else if e.2 = value then return (i, true)
    else d.scanFrom name value fuel (i + 1) (if nameOnly = 0 then i else nameOnly)

/-- The linear scan: the newest full match, else the newest name match, else 0. -/
def lookupAfterCollision (name value : Bytes) : Option (ℕ × Bool) :=
  d.scanFrom name value d.count 1 0

end DynamicTable

/-- The lookup through the index, with the linear scan behind it. -/
def DynamicTableIndex.lookup (x : DynamicTableIndex) (d : DynamicTable) (name value : Bytes) :
    Option (ℕ × Bool) :=
  match x.byName (x.hash name) with
  | none => some (0, false)
  | some id => do
    let nameIndex := x.newest - id + 1
    let e ← d.entryAt nameIndex
    if e.1 ≠ name then d.lookupAfterCollision name value
    else if e.2 = value then return (nameIndex, true)
    else
      match x.byNameValue (x.hash name, x.hash value) with
      | none => return (nameIndex, false)
      | some id =>
        let index := x.newest - id + 1
        let e ← d.entryAt index
        if e.1 = name ∧ e.2 = value then return (index, true)
        else d.lookupAfterCollision name value

namespace DynamicTable

/-! ## What a table stands for -/

/-- The table holds `l`, newest first, and its arena has room for one entry more
than limits of `M` allow. -/
structure Rep (M : ℕ) (d : DynamicTable) (l : List (Bytes × Bytes)) : Prop where
  holds : d.store.Holds l.reverse
  size : d.size = Fifo.weight pairSize l
  weight : Fifo.weight pairSize l ≤ M
  arena : d.store.arena.length ≤ 2 * M
  index : ∀ x, d.index = some x → x.Indexes l

/-- What eviction and insertion leave alone: the limit, and whether there is an
index. -/
def Frame (d d' : DynamicTable) : Prop :=
  d'.maxSize = d.maxSize ∧ d'.index.isSome = d.index.isSome

variable {M : ℕ} {d : DynamicTable} {l : List (Bytes × Bytes)}

theorem Frame.trans {d d' d'' : DynamicTable} (h : Frame d d') (h' : Frame d' d'') : Frame d d'' :=
  ⟨h'.1.trans h.1, h'.2.trans h.2⟩

theorem bytes_reverse (l : List (Bytes × Bytes)) :
    bytes l.reverse = bytes l := by
  simp [bytes]

theorem bytes_le_weight (l : List (Bytes × Bytes)) :
    bytes l ≤ Fifo.weight pairSize l := by
  have hsum : Fifo.weight pairSize l = bytes l + l.length * entryOverhead :=
    PairArena.sum_size_eq entryOverhead l
  omega

theorem Rep.count_eq (h : Rep M d l) : d.count = l.length := by
  rw [count, h.holds.count_eq, List.length_reverse]

theorem rep_new {maxSize : ℕ} : Rep M (new maxSize) [] :=
  ⟨holds_empty, rfl, Nat.zero_le _, Nat.zero_le _, by simp [new]⟩

/-- `at` reads the list. -/
theorem Rep.entryAt (h : Rep M d l) {i : ℕ} (hi : i < l.length) :
    d.entryAt (i + 1) = some l[i] := by
  have hlt : l.length - (i + 1) < l.reverse.length := by
    rw [List.length_reverse]
    omega
  rw [DynamicTable.entryAt, if_neg (by rw [h.count_eq]; omega), h.count_eq, h.holds.read hlt,
    List.getElem_reverse]
  congr 2
  omega

/-! ## Eviction -/

/-- Subtraction of what was added, in 32-bit words. -/
theorem sub_word {a b : ℕ} (ha : a + b < word) : (a + b + word - a % word) % word = b := by
  simp only [word] at ha ⊢
  omega

theorem Rep.unindexOldest {x : Bytes × Bytes} (h : Rep M d (l ++ [x])) :
    ∃ index, d.unindexOldest = some index ∧ index.isSome = d.index.isSome ∧
      ∀ y, index = some y → y.Indexes l := by
  unfold DynamicTable.unindexOldest
  cases hi : d.index with
  | none => exact ⟨none, rfl, rfl, by simp⟩
  | some y =>
    have hcount : d.count = l.length + 1 := by simpa using h.count_eq
    have hlast := h.entryAt (i := l.length) (by simp)
    simp only [hcount, hlast, List.getElem_concat_length, Option.map_some]
    refine ⟨_, rfl, rfl, fun z hz => ?_⟩
    rw [← Option.some.inj hz]
    exact (h.index y hi).remove

/-- One turn of the eviction loop drops the oldest entry. -/
theorem Rep.evictOldest {x : Bytes × Bytes} (h : Rep M d (l ++ [x])) (hM : M < word) :
    ∃ d', d.evictOldest = some d' ∧ Rep M d' l ∧ Frame d d' := by
  have hcount : d.count = l.length + 1 := by simpa using h.count_eq
  have hholds := h.holds
  rw [List.reverse_concat] at hholds
  obtain ⟨e, hspan, hn, hv, hdrop⟩ := hholds.dropOldest
  obtain ⟨index, hun, hsome, hindex⟩ := h.unindexOldest
  have hweight : Fifo.weight pairSize (l ++ [x]) = pairSize x + Fifo.weight pairSize l := by
    simp [Nat.add_comm]
  have hle := h.weight
  have hcount' : (d.store.dropOldest e).count = l.length := by simpa using hdrop.count_eq
  simp only [DynamicTable.evictOldest, hcount, Nat.succ_ne_zero, if_false, hspan, hun,
    Option.bind_eq_bind, Option.bind_some, Option.pure_def]
  refine ⟨_, rfl, ⟨?_, ?_, by omega, ?_, hindex⟩, rfl, hsome⟩
  · split_ifs with h0
    · obtain rfl : l = [] := List.length_eq_zero_iff.mp (hcount' ▸ h0)
      exact hdrop.reset
    · exact hdrop
  · rw [h.size, hweight, hn, hv]
    exact sub_word (by omega)
  · split_ifs
    · exact Nat.zero_le _
    · exact h.arena

/-- What an eviction keeps, the loop keeps. -/
theorem evictFor_keeps {β : Type*} {f : DynamicTable → β} {es fuel : ℕ} {d d' : DynamicTable}
    (hone : ∀ {d d' : DynamicTable}, d.evictOldest = some d' → f d' = f d)
    (h : d.evictFor es fuel = some d') : f d' = f d := by
  induction fuel generalizing d with
  | zero => rw [Option.some.inj h]
  | succ fuel ih =>
    unfold DynamicTable.evictFor at h
    split_ifs at h
    · obtain ⟨d₁, hd₁, hrest⟩ := Option.bind_eq_some_iff.mp h
      rw [ih hrest, hone hd₁]
    · rw [Option.some.inj h]

/-- The eviction loop keeps the longest prefix that leaves room for `es`. -/
theorem evictFor_rep {es : ℕ} (hes : M + es < word) {fuel : ℕ} :
    ∀ {d : DynamicTable} {l : List (Bytes × Bytes)}, Rep M d l → l.length ≤ fuel →
      es ≤ d.maxSize → ∃ d', DynamicTable.evictFor es fuel d = some d' ∧
        Rep M d' (Fifo.fit pairSize (d.maxSize - es) l) ∧ Frame d d' := by
  induction fuel with
  | zero =>
    intro d l h hlen _
    obtain rfl : l = [] := List.length_eq_zero_iff.mp (by omega)
    exact ⟨d, rfl, h, rfl, rfl⟩
  | succ fuel ih =>
    intro d l h hlen hle
    have hsum : (d.size + es) % word = Fifo.weight pairSize l + es := by
      rw [h.size]
      exact Nat.mod_eq_of_lt (by have := h.weight; omega)
    simp only [DynamicTable.evictFor, hsum, h.count_eq]
    split_ifs with hloop
    · rcases List.eq_nil_or_concat' l with rfl | ⟨l', x, rfl⟩
      · exact absurd hloop.2 (by simp)
      · have hM : M < word := by omega
        obtain ⟨d₁, hd₁, hrep, hframe⟩ := h.evictOldest hM
        obtain ⟨d₂, hd₂, hrep₂, hframe₂⟩ := ih hrep (by simpa using hlen) (hframe.1 ▸ hle)
        rw [hframe.1] at hrep₂
        refine ⟨d₂, by simp [hd₁, hd₂], ?_, hframe.trans hframe₂⟩
        rwa [Fifo.fit_concat_of_lt (by omega)]
    · refine ⟨d, rfl, ?_, rfl, rfl⟩
      rw [not_and_or] at hloop
      rwa [Fifo.fit_eq_self]
      rcases hloop with hfit | hempty
      · omega
      · obtain rfl : l = [] := List.length_eq_zero_iff.mp (by omega)
        simp

/-! ## The operations -/

theorem Rep.setMaxSize (h : Rep M d l) (hM : M < word) (n : ℕ) :
    ∃ d', d.setMaxSize n = some d' ∧ Rep M d' (Fifo.fit pairSize n l) ∧
      Frame { d with maxSize := n } d' := by
  have h' : Rep M { d with maxSize := n } l := { h with }
  exact evictFor_rep hM h' h.count_eq.ge (Nat.zero_le _)

theorem Rep.clear (d : DynamicTable) : Rep M d.clear [] := by
  refine ⟨holds_empty, rfl, Nat.zero_le _, Nat.zero_le _, ?_⟩
  intro x hx
  obtain ⟨y, -, rfl⟩ := Option.map_eq_some_iff.mp hx
  exact .clear

variable {name value : Bytes}

theorem entrySize_eq (h : pairSize (name, value) < word) :
    entrySize name value = pairSize (name, value) := by
  simp only [pairSize] at h
  rw [entrySize, Nat.mod_eq_of_lt (show name.length < word by omega),
    Nat.mod_eq_of_lt (show value.length < word by omega), Nat.mod_eq_of_lt h]
  rfl

/-- Writing the entry behind the newest one, before the arena is looked at. -/
theorem Rep.append (h : Rep M d l) (d' : DynamicTable)
    (hle : Fifo.weight pairSize l + pairSize (name, value) ≤ M) (hM : 3 * M ≤ word)
    (hstore : d'.store = d.store.append name value)
    (hsize : d'.size = (d.size + pairSize (name, value)) % word)
    (hindex : d'.index = d.index.map (·.add name value)) :
    d'.store.Holds ((name, value) :: l).reverse ∧
      d'.size = Fifo.weight pairSize ((name, value) :: l) ∧
      ∀ x, d'.index = some x → x.Indexes ((name, value) :: l) := by
  have hover : entryOverhead = 32 := rfl
  have hword : 0 < word := by decide
  refine ⟨?_, ?_, fun x hx => ?_⟩
  · rw [hstore, List.reverse_cons]
    refine h.holds.append ?_
    have := h.arena
    simp only [pairSize] at hle
    omega
  · rw [hsize, h.size, Fifo.weight_cons, Nat.mod_eq_of_lt (by omega), Nat.add_comm]
  · rw [hindex] at hx
    obtain ⟨y, hy, rfl⟩ := Option.map_eq_some_iff.mp hx
    exact (h.index y hy).add name value

/-- The arena check at the end of an insertion: nothing changes but the arena,
which ends up at most twice as long as the live bytes. -/
theorem compactIfSparse (hholds : d.store.Holds l.reverse) (hsize : d.size = Fifo.weight pairSize l)
    (hindex : ∀ x, d.index = some x → x.Indexes l) (hweight : Fifo.weight pairSize l ≤ M)
    (hM : 3 * M ≤ word) (hne : l ≠ []) :
    ∃ d', (if d.store.used * 2 % word < d.store.arena.length % word ∧ 0 < d.count
        then d.compactArena else some d) = some d' ∧
      Rep M d' l ∧ d'.store.arena.length ≤ 2 * bytes l ∧ Frame d d' := by
  have hword : 0 < word := by decide
  have hbytes := bytes_le_weight l
  have hcount : 0 < d.count := by
    rw [count, hholds.count_eq, List.length_reverse]
    exact List.length_pos_iff.mpr hne
  have hused : d.store.used = bytes l := by
    rw [hholds.used, bytes_reverse, Nat.mod_eq_of_lt (by omega)]
  rw [hused, Nat.mod_eq_of_lt (show bytes l * 2 < word by omega),
    Nat.mod_eq_of_lt hholds.bound]
  split_ifs
  · obtain ⟨store, hc, hholds', hlen⟩ := hholds.compact (by rw [bytes_reverse]; omega)
    rw [bytes_reverse] at hlen
    exact ⟨{ d with store := store }, by simp [compactArena, hc],
      ⟨hholds', hsize, hweight, by show store.arena.length ≤ _; omega, hindex⟩,
      by show store.arena.length ≤ _; omega, rfl, rfl⟩
  · exact ⟨d, rfl, ⟨hholds, hsize, hweight, by omega, hindex⟩, by omega, rfl, rfl⟩

/-- Insertion is insertion into a weight-bounded queue, and leaves the arena at
most twice as long as the live bytes. -/
theorem Rep.add (h : Rep M d l) (hmax : d.maxSize ≤ M) (hM : 3 * M ≤ word)
    (hx : pairSize (name, value) < word) :
    ∃ d', d.add name value = some d' ∧
      Rep M d' (Fifo.push pairSize d.maxSize (name, value) l) ∧
      d'.store.arena.length ≤
        2 * bytes (Fifo.push pairSize d.maxSize (name, value) l) ∧
      Frame d d' := by
  simp only [DynamicTable.add, entrySize_eq hx, Fifo.push]
  by_cases hbig : d.maxSize < pairSize (name, value)
  · rw [if_pos hbig, if_neg (by omega)]
    exact ⟨d.clear, rfl, .clear d, by simp [DynamicTable.clear, PairArena.empty], rfl, by
      simp [DynamicTable.clear]⟩
  rw [if_neg hbig, if_pos (by omega)]
  have hroom : M + pairSize (name, value) < word := by omega
  obtain ⟨d₁, hd₁, hrep, hframe⟩ := evictFor_rep hroom h h.count_eq.ge (by omega)
  have hfit := Fifo.weight_fit_le (w := pairSize) (d.maxSize - pairSize (name, value)) l
  obtain ⟨hholds, hsize, hindex⟩ := hrep.append
    ⟨d₁.store.append name value, d₁.maxSize, (d₁.size + pairSize (name, value)) % word,
      d₁.index.map (·.add name value)⟩ (by omega) hM rfl rfl rfl
  obtain ⟨d₂, hd₂, hrep₂, harena, hframe₂⟩ :=
    compactIfSparse hholds hsize hindex (by simp only [Fifo.weight_cons]; omega) hM (by simp)
  refine ⟨d₂, ?_, hrep₂, harena, hframe.trans ⟨hframe₂.1, hframe₂.2.trans (by simp)⟩⟩
  simp only [hd₁, Option.bind_eq_bind, Option.bind_some, Option.pure_def]
  exact hd₂

/-! ## Lookups -/

/-- The best match of a list, from 1: the first entry equal in name and value,
else the first equal in name, else 0. -/
def bestMatch (l : List (Bytes × Bytes)) (name value : Bytes) : ℕ × Bool :=
  match l.findIdx? (· = (name, value)) with
  | some i => (i + 1, true)
  | none =>
    match l.findIdx? (·.1 = name) with
    | some i => (i + 1, false)
    | none => (0, false)

/-- The scan from entry `k + 1` on, with a name match `nameOnly` already seen. -/
theorem Rep.scanFrom (h : Rep M d l) (name value : Bytes) (suf : List (Bytes × Bytes)) :
    ∀ (pre : List (Bytes × Bytes)) (nameOnly : ℕ), l = pre ++ suf →
      d.scanFrom name value suf.length (pre.length + 1) nameOnly =
        some (match suf.findIdx? (· = (name, value)) with
          | some j => (pre.length + j + 1, true)
          | none =>
            if nameOnly ≠ 0 then (nameOnly, false)
            else match suf.findIdx? (·.1 = name) with
              | some j => (pre.length + j + 1, false)
              | none => (0, false)) := by
  induction suf with
  | nil =>
    intro pre nameOnly _
    by_cases h0 : nameOnly = 0 <;> simp [DynamicTable.scanFrom, h0]
  | cons e suf ih =>
    intro pre nameOnly hl
    have hlt : pre.length < l.length := by simp [hl]
    have hread : d.entryAt (pre.length + 1) = some e := by
      rw [h.entryAt hlt]
      simp [hl]
    have hrest := fun no => ih (pre ++ [e]) no (by simp [hl])
    simp only [List.length_append, List.length_singleton] at hrest
    simp only [DynamicTable.scanFrom, List.length_cons, hread, Option.bind_eq_bind,
      Option.bind_some, hrest, List.findIdx?_cons]
    by_cases hname : e.1 = name
    · by_cases hvalue : e.2 = value
      · have heq : e = (name, value) := Prod.ext hname hvalue
        simp [heq]
      · have hne : e ≠ (name, value) := fun he => hvalue (by rw [he])
        simp only [hname, hvalue, hne, ne_eq, not_true_eq_false, if_false, decide_false,
          decide_true, Bool.false_eq_true, if_true]
        cases suf.findIdx? (· = (name, value)) with
        | some j => simp [Nat.add_assoc, Nat.add_comm 1]
        | none => by_cases h0 : nameOnly = 0 <;> simp [h0]
    · have hne : e ≠ (name, value) := fun he => hname (by rw [he])
      simp only [hname, hne, ne_eq, not_false_eq_true, if_true, decide_false, Bool.false_eq_true,
        if_false]
      cases suf.findIdx? (· = (name, value)) with
      | some j => simp [Nat.add_assoc, Nat.add_comm 1]
      | none =>
        cases suf.findIdx? (·.1 = name) with
        | some j => simp [Nat.add_assoc, Nat.add_comm 1]
        | none => simp

/-- The linear scan finds the best match. -/
theorem Rep.lookupAfterCollision (h : Rep M d l) (name value : Bytes) :
    d.lookupAfterCollision name value = some (bestMatch l name value) := by
  have := h.scanFrom name value l [] 0 rfl
  rw [DynamicTable.lookupAfterCollision, h.count_eq]
  simpa [bestMatch] using this

/-- The first entry with a key is found under its id. -/
theorem newestId_some {κ : Type*} [DecidableEq κ] {key : Bytes × Bytes → κ} {newest id : ℕ}
    {k : κ} (hn : l.length ≤ newest) (h : newestId key newest l k = some id) :
    ∃ i, ∃ hi : i < l.length, newest - id = i ∧ key l[i] = k ∧ ∀ j (hj : j < i), key l[j] ≠ k := by
  obtain ⟨i, hfind, rfl⟩ := Option.map_eq_some_iff.mp h
  obtain ⟨hi, hkey, hbefore⟩ := List.findIdx?_eq_some_iff_getElem.mp hfind
  exact ⟨i, hi, by omega, by simpa using hkey, fun j hj => by simpa using hbefore j hj⟩

theorem newestId_none {κ : Type*} [DecidableEq κ] {key : Bytes × Bytes → κ} {newest : ℕ}
    {k : κ} (h : newestId key newest l k = none) : ∀ e ∈ l, key e ≠ k := by
  have hfind := Option.map_eq_none_iff.mp h
  exact fun e he => by simpa using List.findIdx?_eq_none_iff.mp hfind e he

theorem findIdx?_eq_some_of_first {p : Bytes × Bytes → Bool} {i : ℕ} (hi : i < l.length)
    (hp : p l[i] = true) (hbefore : ∀ j (hj : j < i), p l[j] = false) :
    l.findIdx? p = some i :=
  List.findIdx?_eq_some_iff_getElem.mpr ⟨hi, hp, fun j hj => by simp [hbefore j hj]⟩

/-- The indexed lookup agrees with the list, whatever the hash function does. -/
theorem Rep.lookup (h : Rep M d l) {x : DynamicTableIndex} (hx : d.index = some x)
    (name value : Bytes) : x.lookup d name value = some (bestMatch l name value) := by
  have hidx := h.index x hx
  unfold DynamicTableIndex.lookup
  rw [hidx.byName]
  cases hn : newestId (fun e => x.hash e.1) x.newest l (x.hash name) with
  | none =>
    -- no live entry has the hash of the name, so none has the name
    have hno := newestId_none hn
    have hname : l.findIdx? (·.1 = name) = none :=
      List.findIdx?_eq_none_iff.mpr fun e he => by
        simpa using fun he' => hno e he (by rw [he'])
    have hfull : l.findIdx? (· = (name, value)) = none :=
      List.findIdx?_eq_none_iff.mpr fun e he => by
        simpa using fun he' => hno e he (by rw [he'])
    simp [bestMatch, hname, hfull]
  | some id =>
    obtain ⟨i, hi, hid, hhash, hbefore⟩ := newestId_some hidx.newest hn
    simp only [hid, h.entryAt hi, Option.bind_eq_bind, Option.bind_some]
    split_ifs with hne heq
    · exact h.lookupAfterCollision name value
    · -- an entry before this one has another name hash, so it is no match
      have hfull : l.findIdx? (· = (name, value)) = some i :=
        findIdx?_eq_some_of_first hi (by
          simpa using Prod.ext (not_not.mp hne) heq) fun j hj => by
          simpa using fun he => hbefore j hj (by rw [he])
      simp [bestMatch, hfull]
    · have hname : l.findIdx? (·.1 = name) = some i :=
        findIdx?_eq_some_of_first hi (by simpa using hne) fun j hj => by
          simpa using fun he => hbefore j hj (by rw [he])
      rw [hidx.byNameValue]
      cases hnv : newestId (fun e => x.hashes e.1 e.2) x.newest l
          (x.hash name, x.hash value) with
      | none =>
        have hfull : l.findIdx? (· = (name, value)) = none :=
          List.findIdx?_eq_none_iff.mpr fun e he => by
            simpa using fun he' => newestId_none hnv e he (by rw [he']; rfl)
        simp [bestMatch, hname, hfull]
      | some id' =>
        obtain ⟨j, hj, hid', -, hbefore'⟩ := newestId_some hidx.newest hnv
        simp only [hid', h.entryAt hj, Option.bind_some]
        split_ifs with hmatch
        · have hfull : l.findIdx? (· = (name, value)) = some j :=
            findIdx?_eq_some_of_first hj (by simpa using Prod.ext hmatch.1 hmatch.2) fun k hk => by
              simpa using fun he => hbefore' k hk (by rw [he]; rfl)
          simp [bestMatch, hfull]
        · exact h.lookupAfterCollision name value

end DynamicTable

end Hpack
