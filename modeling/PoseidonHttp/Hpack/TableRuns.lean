import PoseidonHttp.Hpack.DynamicTable

/-!
# Runs of the dynamic table

A run is any sequence of `add`, `setMaxSize` and `clear` on a table. Over it stands
the queue the table is for: a limit and the entries, newest first, of which the
oldest are dropped until the rest fits.

* `Tracks.run`: as long as sizes fit the 32-bit offsets, no operation stops, and the
  table stands for the queue.
* `table_refines`: what ring, arena and counters look like in every state of a run.
* `lookup_exact`: the hashed index answers as the linear scan does, for any hash
  function.
-/

namespace Hpack

open Header (Bytes pairSize entryOverhead)
open PairArena (word Span span pushSpan bytes spanAt)

/-- The operations of a table. -/
inductive TableOp where
  | add (name value : Bytes)
  | setMaxSize (n : ℕ)
  | clear

namespace DynamicTable

/-- One operation; `none` is a slice expression out of bounds. -/
def apply (d : DynamicTable) : TableOp → Option DynamicTable
  | .add name value => d.add name value
  | .setMaxSize n => d.setMaxSize n
  | .clear => some d.clear

/-- The table after a run. -/
def run : DynamicTable → List TableOp → Option DynamicTable
  | d, [] => some d
  | d, op :: ops => (d.apply op).bind (run · ops)

/-- `k` turns of an eviction loop. -/
def evictions : ℕ → DynamicTable → Option DynamicTable
  | 0, d => some d
  | k + 1, d => d.evictOldest.bind (evictions k)

/-- A new table with a hashed index. -/
def newIndexed (hash : Bytes → UInt64) (maxSize : ℕ) : DynamicTable :=
  { new maxSize with index := some (.new hash) }

/-- The slots of the entry ring. -/
def ringLength (d : DynamicTable) : ℕ := d.store.entries.slots.length

end DynamicTable

/-- What the table is for: a limit and the entries, newest first. -/
structure TableQueue where
  limit : ℕ
  entries : List (Bytes × Bytes)

namespace TableQueue

def apply (q : TableQueue) : TableOp → TableQueue
  | .add name value => { q with entries := Fifo.push pairSize q.limit (name, value) q.entries }
  | .setMaxSize n => ⟨n, Fifo.fit pairSize n q.entries⟩
  | .clear => { q with entries := [] }

def run (q : TableQueue) (ops : List TableOp) : TableQueue := ops.foldl apply q

end TableQueue

/-- The largest limit of a run. -/
def peakLimit (maxSize : ℕ) : List TableOp → ℕ
  | [] => maxSize
  | .setMaxSize n :: ops => max maxSize (peakLimit n ops)
  | _ :: ops => peakLimit maxSize ops

/-- An operation whose entry is smaller than `b` bytes. -/
def TableOp.Below (b : ℕ) : TableOp → Prop
  | .add name value => pairSize (name, value) < b
  | _ => True

instance (b : ℕ) : DecidablePred (TableOp.Below b)
  | .add name value => inferInstanceAs (Decidable (pairSize (name, value) < b))
  | .setMaxSize _ => isTrue trivial
  | .clear => isTrue trivial

theorem TableOp.Below.mono {b b' : ℕ} {op : TableOp} (h : op.Below b) (hb : b ≤ b') :
    op.Below b' := by
  cases op with
  | add name value => exact lt_of_lt_of_le h hb
  | setMaxSize | clear => trivial

theorem le_peakLimit (ops : List TableOp) : ∀ maxSize, maxSize ≤ peakLimit maxSize ops := by
  induction ops with
  | nil => intro maxSize; exact Nat.le_refl _
  | cons op ops ih =>
    intro maxSize
    cases op with
    | add name value | clear => exact ih maxSize
    | setMaxSize n => exact Nat.le_max_left _ _

theorem le_peakLimit_setMaxSize (maxSize n : ℕ) (ops : List TableOp) :
    peakLimit n ops ≤ peakLimit maxSize (.setMaxSize n :: ops) :=
  Nat.le_max_right _ _

namespace DynamicTable

variable {M : ℕ} {d d' : DynamicTable} {l : List (Bytes × Bytes)}

/-! ## The ring -/

theorem evictOldest_ringLength (h : d.evictOldest = some d') : d'.ringLength = d.ringLength := by
  unfold evictOldest at h
  split_ifs at h
  · cases h
    rfl
  · obtain ⟨e, -, h⟩ := Option.bind_eq_some_iff.mp h
    obtain ⟨index, -, h⟩ := Option.bind_eq_some_iff.mp h
    cases h
    -- both the kept and the reset store hold the ring of `popFront`
    split_ifs <;> rfl

/-- Every live entry takes at least the overhead of the limit. -/
theorem Rep.count_le (h : Rep M d l) : d.count * 32 ≤ M := by
  rw [h.count_eq]
  have hmin : ∀ x ∈ l, 32 ≤ pairSize x := by
    intro x _
    exact Nat.le_add_left _ _
  exact (Fifo.length_mul_le_weight l hmin).trans h.weight

/-- A full ring is doubled only while the entries fit the limit, so it stays within
twice of what the limit can hold. -/
theorem ringLength_append (r : SlotRing Span) (e : Span)
    (hcount : (r.count + 1) * 32 ≤ M) (hring : r.slots.length ≤ 2 * (M / 32) + 32) :
    (pushSpan r e).slots.length ≤ 2 * (M / 32) + 32 := by
  unfold pushSpan
  split_ifs
  · simpa [SlotRing.pushBack] using hring
  · have hgrown := r.length_slots_grow Span.zero
      (r.count_le.trans (PairArena.lt_grown r.slots.length).le)
    simp only [SlotRing.pushBack, List.length_set, hgrown]
    unfold PairArena.grown PairArena.initialRing
    split_ifs <;> omega

theorem compact_ringLength {p p' : PairArena UInt8} (h : p.compact = some p') :
    p'.entries.slots.length = p'.count := by
  obtain ⟨r, -, h⟩ := Option.bind_eq_some_iff.mp h
  cases h
  rfl

theorem Rep.add_ringLength {name value : Bytes} (h : Rep M d l) (hmax : d.maxSize ≤ M)
    (hM : 3 * M ≤ word) (hx : pairSize (name, value) < word)
    (hring : d.ringLength ≤ 2 * (M / 32) + 32) (hadd : d.add name value = some d') :
    d'.ringLength ≤ 2 * (M / 32) + 32 := by
  obtain ⟨d'', hd'', hrep', -, -⟩ := h.add hmax hM hx
  have hcount' : d'.count * 32 ≤ M := by
    rw [hadd, Option.some.injEq] at hd''
    subst hd''
    exact hrep'.count_le
  simp only [DynamicTable.add, entrySize_eq hx] at hadd
  split_ifs at hadd
  · rw [Option.some.injEq] at hadd
    subst hadd
    exact Nat.zero_le _
  obtain ⟨d₁, hd₁, hadd⟩ := Option.bind_eq_some_iff.mp hadd
  have hroom : M + pairSize (name, value) < word := by omega
  obtain ⟨d₁', hd₁', hrep, -⟩ := evictFor_rep hroom h h.count_eq.ge (by omega)
  rw [hd₁, Option.some.injEq] at hd₁'
  subst hd₁'
  have hfit := Fifo.weight_fit_le (w := pairSize) (d.maxSize - pairSize (name, value)) l
  have hmin : ∀ x : Bytes × Bytes, 32 ≤ pairSize x := by
    intro x
    exact Nat.le_add_left _ _
  -- the new entry fits beside those left, so it has a place under the limit
  have hcount : (d₁.store.entries.count + 1) * 32 ≤ M := by
    have hlen := Fifo.length_mul_le_weight _ fun x (_ : x ∈ Fifo.fit pairSize
      (d.maxSize - pairSize (name, value)) l) => hmin x
    have hc : d₁.store.entries.count = _ := hrep.count_eq
    have := hmin (name, value)
    omega
  have hring₁ : d₁.store.entries.slots.length ≤ 2 * (M / 32) + 32 := by
    have := evictFor_keeps evictOldest_ringLength hd₁
    exact this.trans_le hring
  split_ifs at hadd
  · obtain ⟨p, hp, rfl⟩ := Option.map_eq_some_iff.mp hadd
    have hslots := compact_ringLength hp
    have hc : p.count * 32 ≤ M := hcount'
    show p.entries.slots.length ≤ _
    omega
  · cases hadd
    exact ringLength_append _ _ hcount hring₁

/-! ## Whole runs -/

/-- The table stands for the queue, under limits of at most `M`. -/
structure Tracks (M : ℕ) (d : DynamicTable) (q : TableQueue) : Prop where
  rep : Rep M d q.entries
  limit : d.maxSize = q.limit
  fits : Fifo.weight pairSize q.entries ≤ q.limit
  limit_le : q.limit ≤ M
  ring : d.ringLength ≤ 2 * (M / 32) + 32

variable {q : TableQueue}

/-- One operation on the table is one on the queue. -/
theorem Tracks.apply (h : Tracks M d q) (hM : 3 * M ≤ word) {op : TableOp} (hop : op.Below word)
    (hlimit : ∀ n, op = .setMaxSize n → n ≤ M) :
    ∃ d', d.apply op = some d' ∧ Tracks M d' (q.apply op) ∧
      d'.index.isSome = d.index.isSome := by
  have hpos : 0 < word := by decide
  have hlt : M < word := by omega
  cases op with
  | add name value =>
    have hmax : d.maxSize ≤ M := h.limit.trans_le h.limit_le
    obtain ⟨d', hd', hrep, -, hframe⟩ := h.rep.add hmax hM hop
    refine ⟨d', hd', ⟨?_, ?_, ?_, h.limit_le, ?_⟩, hframe.2⟩
    · rw [h.limit] at hrep
      exact hrep
    · exact hframe.1.trans h.limit
    · exact Fifo.weight_push_le _ _ _
    · exact h.rep.add_ringLength hmax hM hop h.ring hd'
  | setMaxSize n =>
    obtain ⟨d', hd', hrep, hframe⟩ := h.rep.setMaxSize hlt n
    refine ⟨d', hd', ⟨hrep, hframe.1, Fifo.weight_fit_le n _, hlimit n rfl, ?_⟩, hframe.2⟩
    have hsame := evictFor_keeps evictOldest_ringLength hd'
    exact hsame.trans_le h.ring
  | clear =>
    refine ⟨d.clear, rfl, ⟨.clear d, h.limit, Nat.zero_le _, h.limit_le, Nat.zero_le _⟩, ?_⟩
    simp [DynamicTable.clear]

/-- No operation of a run stops, and the table stands for the queue throughout. -/
theorem Tracks.run (hM : 3 * M ≤ word) :
    ∀ (ops : List TableOp) {d : DynamicTable} {q : TableQueue}, Tracks M d q →
      (∀ op ∈ ops, op.Below word) → peakLimit q.limit ops ≤ M →
      ∃ d', d.run ops = some d' ∧ Tracks M d' (q.run ops) ∧
        d'.index.isSome = d.index.isSome := by
  intro ops
  induction ops with
  | nil =>
    intro d q h _ _
    exact ⟨d, rfl, h, rfl⟩
  | cons op ops ih =>
    intro d q h hops hpeak
    have hlimit : ∀ n, op = .setMaxSize n → n ≤ M := by
      intro n hn
      subst hn
      exact (le_peakLimit ops n).trans ((le_peakLimit_setMaxSize _ n ops).trans hpeak)
    obtain ⟨d₁, hd₁, h₁, hindex₁⟩ := h.apply hM (hops op (List.mem_cons_self ..)) hlimit
    have hpeak₁ : peakLimit (q.apply op).limit ops ≤ M := by
      cases op with
      | add name value | clear => exact hpeak
      | setMaxSize n => exact (le_peakLimit_setMaxSize _ n ops).trans hpeak
    obtain ⟨d₂, hd₂, h₂, hindex₂⟩ := ih h₁ (fun o ho => hops o (List.mem_cons_of_mem _ ho)) hpeak₁
    refine ⟨d₂, ?_, h₂, hindex₂.trans hindex₁⟩
    simp only [DynamicTable.run, hd₁, Option.bind_some, hd₂]

theorem tracks_new {maxSize : ℕ} (h : maxSize ≤ M) : Tracks M (new maxSize) ⟨maxSize, []⟩ :=
  ⟨rep_new, rfl, Nat.zero_le _, h, Nat.zero_le _⟩

theorem tracks_newIndexed (hash : Bytes → UInt64) {maxSize : ℕ} (h : maxSize ≤ M) :
    Tracks M (newIndexed hash maxSize) ⟨maxSize, []⟩ := by
  have hnew : Rep M (new maxSize) [] := rep_new
  refine ⟨{ hnew with index := ?_ }, rfl, Nat.zero_le _, h, Nat.zero_le _⟩
  intro x hx
  rw [← Option.some.inj hx]
  exact DynamicTableIndex.indexes_new hash

/-! ## Counters and offsets -/

/-- An eviction loop may go on to the last entry. -/
theorem Rep.evictions (hM : M < word) (k : ℕ) :
    ∀ {d : DynamicTable} {l : List (Bytes × Bytes)}, Rep M d l →
      ∃ d' l', evictions k d = some d' ∧ Rep M d' l' := by
  induction k with
  | zero =>
    intro d l h
    exact ⟨d, l, rfl, h⟩
  | succ k ih =>
    intro d l h
    rcases List.eq_nil_or_concat' l with rfl | ⟨l', x, rfl⟩
    · have h0 : d.count = 0 := h.count_eq
      obtain ⟨d', l', hd', h'⟩ := ih h
      refine ⟨d', l', ?_, h'⟩
      simp only [DynamicTable.evictions, DynamicTable.evictOldest, h0, if_true, Option.bind_some, hd']
    · obtain ⟨d₁, hd₁, h₁, -⟩ := h.evictOldest hM
      obtain ⟨d', l', hd', h'⟩ := ih h₁
      refine ⟨d', l', ?_, h'⟩
      simp only [DynamicTable.evictions, hd₁, Option.bind_some, hd']

theorem Rep.used_eq (h : Rep M d l) (hM : M < word) : d.store.used = bytes l := by
  rw [h.holds.used, bytes_reverse, Nat.mod_eq_of_lt]
  exact ((bytes_le_weight l).trans h.weight).trans_lt hM

/-- What an eviction subtracts is there. -/
theorem Rep.oldest_le (h : Rep M d l) (hM : M < word) {e : Span}
    (he : d.store.span 0 = some e) :
    e.nameLen + e.valueLen + entryOverhead ≤ d.size ∧ e.nameLen + e.valueLen ≤ d.store.used := by
  rcases List.eq_nil_or_concat' l with rfl | ⟨l', x, rfl⟩
  · have hnil : d.store.entries.toList = [] := List.forall₂_nil_right_iff.mp h.holds.spans
    rw [span, hnil] at he
    cases he
  have hholds := h.holds
  rw [List.reverse_concat] at hholds
  obtain ⟨e', he', hn, hv, -⟩ := hholds.dropOldest
  rw [he, Option.some.injEq] at he'
  subst he'
  have hover : pairSize x = x.1.length + x.2.length + entryOverhead := rfl
  rw [h.size, h.used_eq hM, hn, hv, Fifo.weight_append, PairArena.bytes_append, Fifo.weight_cons,
    PairArena.bytes_cons]
  omega

theorem Rep.span_le (h : Rep M d l) {e : Span} (he : e ∈ d.store.entries.toList) :
    e.nameOff + e.nameLen ≤ d.store.arena.length ∧
      e.valueOff + e.valueLen ≤ d.store.arena.length := by
  obtain ⟨i, hi, rfl⟩ := List.getElem_of_mem he
  have hi' : i < l.reverse.length := h.holds.spans.length_eq ▸ hi
  have hloc := h.holds.spans.get hi hi'
  obtain ⟨pre, post, hname, hoff⟩ := hloc.name
  obtain ⟨pre', post', hvalue, hoff'⟩ := hloc.value
  have hn := hloc.nameLen
  have hv := hloc.valueLen
  have hlen := congrArg List.length hname
  have hlen' := congrArg List.length hvalue
  simp only [List.length_append, List.get_eq_getElem] at hlen hlen' hoff hoff' hn hv
  omega

/-- What the table looks like while it stands for `q`, under limits of at most `M`. -/
structure Faithful (M : ℕ) (d : DynamicTable) (q : TableQueue) : Prop where
  /-- `at` reads the queue, newest entry first. -/
  entries : ∀ i (hi : i < q.entries.length), d.entryAt (i + 1) = some q.entries[i]
  count : d.count = q.entries.length
  limit : d.maxSize = q.limit
  size : d.size = (q.entries.map pairSize).sum
  size_le : d.size ≤ d.maxSize
  used : d.store.used = bytes q.entries
  /-- The slice expressions of every live entry are in bounds. -/
  offsets : ∀ e ∈ d.store.entries.toList, e.nameOff + e.nameLen ≤ d.store.arena.length ∧
    e.valueOff + e.valueLen ≤ d.store.arena.length
  /-- However far an eviction loop goes, it never subtracts more than is there. -/
  evictions : ∀ k, ∃ d', evictions k d = some d' ∧ ∀ e, d'.store.span 0 = some e →
    e.nameLen + e.valueLen + entryOverhead ≤ d'.size ∧ e.nameLen + e.valueLen ≤ d'.store.used
  ring : d.ringLength ≤ 2 * (M / 32) + 32

theorem Tracks.faithful (h : Tracks M d q) (hM : M < word) : Faithful M d q where
  entries := fun _ hi => h.rep.entryAt hi
  count := h.rep.count_eq
  limit := h.limit
  size := h.rep.size
  size_le := by
    rw [h.rep.size, h.limit]
    exact h.fits
  used := h.rep.used_eq hM
  offsets := fun _ he => h.rep.span_le he
  evictions := by
    intro k
    obtain ⟨d', l', hd', hrep⟩ := h.rep.evictions hM k
    exact ⟨d', hd', fun e he => hrep.oldest_le hM he⟩
  ring := h.ring

/-- The ring and the arena keep the queue they are for. In every run with sizes
below 2^30 no operation stops, the table stands for the queue, and after an
insertion the arena is at most twice as long as the live bytes. The ring stays
within twice what the largest limit so far can hold. -/
theorem table_refines (maxSize : ℕ) (ops : List TableOp)
    (hlimits : peakLimit maxSize ops < 2 ^ 30) (hentries : ∀ op ∈ ops, op.Below (2 ^ 30)) :
    ∃ d, (new maxSize).run ops = some d ∧
      Faithful (peakLimit maxSize ops) d (TableQueue.run ⟨maxSize, []⟩ ops) ∧
      ∀ name value, pairSize (name, value) < 2 ^ 30 →
        ∃ d', d.add name value = some d' ∧ d'.store.arena.length ≤ 2 * d'.store.used := by
  have hword : word = 2 ^ 32 := rfl
  have hM : 3 * peakLimit maxSize ops ≤ word := by omega
  have hlt : peakLimit maxSize ops < word := by omega
  have hbelow : ∀ op ∈ ops, op.Below word := by
    intro op hop
    exact (hentries op hop).mono (by omega)
  obtain ⟨d, hrun, htracks, -⟩ :=
    Tracks.run hM ops (tracks_new (le_peakLimit ops maxSize)) hbelow (Nat.le_refl _)
  refine ⟨d, hrun, htracks.faithful hlt, ?_⟩
  intro name value hx
  have hmax : d.maxSize ≤ peakLimit maxSize ops := htracks.limit.trans_le htracks.limit_le
  have hword' : pairSize (name, value) < word := by omega
  obtain ⟨d', hd', hrep, harena, -⟩ := htracks.rep.add hmax hM hword'
  refine ⟨d', hd', ?_⟩
  rw [hrep.used_eq hlt]
  exact harena

/-- Two entries that fit, one that does not, and a smaller limit. -/
theorem table_refines_fourOps :
    ∃ d, (new 96).run [.add [97] [98], .add [99] [100], .add [101] [102], .setMaxSize 40] = some d ∧
      d.entryAt 1 = some ([101], [102]) ∧ d.count = 1 := by
  obtain ⟨d, hrun, hd, -⟩ :=
    table_refines 96 [.add [97] [98], .add [99] [100], .add [101] [102], .setMaxSize 40]
      (by decide) (by decide)
  exact ⟨d, hrun, hd.entries 0 (by decide), hd.count⟩

/-- The ring does not follow a limit that is lowered: after 33 empty entries and a
limit of zero it still has 64 slots, more than any multiple of the limit plus 32. -/
theorem ring_outlives_limit :
    ∃ ops d, (∀ op ∈ ops, op.Below (2 ^ 30)) ∧ peakLimit 2048 ops < 2 ^ 30 ∧
      (new 2048).run ops = some d ∧ ∀ c, c * (d.maxSize / 32) + 32 < d.ringLength := by
  have hrun : (((new 2048).run (List.replicate 33 (.add [] []) ++ [.setMaxSize 0])).any
      fun d => d.maxSize = 0 && d.ringLength = 64) = true := by decide +kernel
  cases hd : (new 2048).run (List.replicate 33 (.add [] []) ++ [.setMaxSize 0]) with
  | none =>
    rw [hd] at hrun
    cases hrun
  | some d =>
    rw [hd] at hrun
    simp only [Option.any_some, Bool.and_eq_true, decide_eq_true_eq] at hrun
    refine ⟨_, d, by decide, by decide, hd, ?_⟩
    intro c
    rw [hrun.1, hrun.2, Nat.mul_zero]
    decide

/-! ## The hashed index -/

/-- The index answers as the linear scan, for every hash function, and the answer is
the best match among the entries. -/
theorem lookup_exact (hash : Bytes → UInt64) (maxSize : ℕ) (ops : List TableOp)
    (hlimits : 3 * peakLimit maxSize ops ≤ 2 ^ 32) (hentries : ∀ op ∈ ops, op.Below (2 ^ 32)) :
    ∃ d x, (newIndexed hash maxSize).run ops = some d ∧ d.index = some x ∧
      ∀ name value, x.lookup d name value = d.lookupAfterCollision name value ∧
        d.lookupAfterCollision name value =
          some (bestMatch (TableQueue.run ⟨maxSize, []⟩ ops).entries name value) := by
  obtain ⟨d, hrun, htracks, hindex⟩ :=
    Tracks.run hlimits ops (tracks_newIndexed hash (le_peakLimit ops maxSize)) hentries
      (Nat.le_refl _)
  have hsome : d.index.isSome = true := hindex
  obtain ⟨x, hx⟩ := Option.isSome_iff_exists.mp hsome
  refine ⟨d, x, hrun, hx, ?_⟩
  intro name value
  have hscan := htracks.rep.lookupAfterCollision name value
  constructor
  · rw [hscan]
    exact htracks.rep.lookup hx name value
  · exact hscan

/-- Three entries under a hash function with one value. -/
theorem lookup_exact_constant :
    ∃ d x, (newIndexed (fun _ => 0) 4096).run [.add [97] [98], .add [97] [99], .add [100] []] =
        some d ∧ d.index = some x ∧ x.lookup d [97] [98] = some (3, true) ∧
      x.lookup d [97] [] = some (2, false) := by
  obtain ⟨d, x, hrun, hx, hlookup⟩ :=
    lookup_exact (fun _ => 0) 4096 [.add [97] [98], .add [97] [99], .add [100] []]
      (by decide) (by decide)
  refine ⟨d, x, hrun, hx, ?_, ?_⟩
  · rw [(hlookup _ _).1, (hlookup _ _).2]
    rfl
  · rw [(hlookup _ _).1, (hlookup _ _).2]
    rfl

/-- A name whose length is a multiple of 2^32 is stored as an empty one. -/
theorem add_long_name {name : Bytes} (hname : name.length = word) (x : DynamicTableIndex) :
    ∃ d, { new 4096 with index := some x }.add name [] = some d ∧
      d.index = some (x.add name []) ∧ d.count = 1 ∧ d.entryAt 1 = some ([], []) := by
  have hes : entrySize name [] = 32 := by
    simp only [entrySize, hname, Nat.mod_self, List.length_nil, Nat.zero_mod]
    rfl
  have hused : ((PairArena.empty : PairArena UInt8).append name []).used = 0 := by
    simp [PairArena.append, PairArena.empty, hname]
  have harena : ((PairArena.empty : PairArena UInt8).append name []).arena.length = word := by
    simp [PairArena.append, PairArena.empty, hname]
  have hlist : ((PairArena.empty : PairArena UInt8).append name []).entries.toList =
      [⟨0, 0, 0, 0⟩] := by
    simp only [PairArena.append, PairArena.toList_pushSpan, PairArena.empty, SlotRing.toList_empty,
      spanAt, List.nil_append, List.length_nil, hname, Nat.mod_self, Nat.zero_mod]
  have hcount : ((PairArena.empty : PairArena UInt8).append name []).count = 1 := by
    rfl
  refine ⟨⟨PairArena.empty.append name [], 4096, 32, some (x.add name [])⟩, ?_, rfl, hcount, ?_⟩
  · simp only [DynamicTable.add, hes, new]
    have hevict : evictFor 32 (count ⟨.empty, 4096, 0, some x⟩) ⟨.empty, 4096, 0, some x⟩ =
        some ⟨.empty, 4096, 0, some x⟩ := rfl
    simp only [hevict, Option.bind_eq_bind, Option.bind_some, hused, harena, Nat.mod_self,
      Nat.zero_mul, Nat.zero_mod, Nat.lt_irrefl, false_and, if_false]
    rfl
  · simp only [DynamicTable.entryAt, DynamicTable.count, hcount]
    simp only [PairArena.read, span, hlist]
    simp [Span.read, PairArena.slice]

/-- Past the 32-bit lengths index and scan part: the index files a name of 2^32
bytes under its own hash, the scan reads it back empty. -/
theorem long_name_misleads_index :
    ∃ hash name d x, (newIndexed hash 4096).run [.add name []] = some d ∧ d.index = some x ∧
      x.lookup d [] [] ≠ d.lookupAfterCollision [] [] := by
  have hlong : (List.replicate word (0 : UInt8)).length = word := List.length_replicate
  generalize List.replicate word (0 : UInt8) = name at hlong
  have hname : name ≠ [] := by
    intro h
    rw [h] at hlong
    exact absurd hlong (by decide)
  obtain ⟨d, hadd, hindex, hcount, hat⟩ :=
    add_long_name hlong (.new fun b => if b = [] then 0 else 1)
  refine ⟨fun b => if b = [] then 0 else 1, name, d, _, ?_, hindex, ?_⟩
  · simp only [DynamicTable.run, DynamicTable.apply, newIndexed]
    rw [hadd]
    rfl
  have hscan : d.lookupAfterCollision [] [] = some (1, true) := by
    simp only [lookupAfterCollision, hcount, scanFrom, hat, Option.bind_eq_bind, Option.bind_some]
    rfl
  have hlookup : (DynamicTableIndex.add (.new fun b => if b = [] then 0 else 1) name []).lookup d
      [] [] = some (0, false) := by
    simp [DynamicTableIndex.lookup, DynamicTableIndex.add, DynamicTableIndex.new,
      DynamicTableIndex.hashes, Function.update, hname]
  rw [hscan, hlookup]
  decide

end DynamicTable

end Hpack
