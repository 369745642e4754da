import Mathlib.Algebra.Ring.Nat
import PoseidonHttp.Lib.SlotRing

/-!
# A queue of string pairs packed in an arena

The bytes of all pairs lie one after another in a single arena; a ring of spans
says where each pair starts and how long its two strings are. Offsets and lengths
are 32-bit words, so they wrap, and a slice expression whose bounds come out wrong
stops the program: `slice` is `none` then.

`Holds p l` says that the arena queue `p` stands for the list `l` of pairs,
oldest first. Each operation comes with the lemma that it keeps `Holds`, under
the bound that keeps the arena addressable by 32 bits.
-/

namespace PairArena

/-- The size of the offset word. -/
def word : ℕ := 2 ^ 32

/-- Where the two strings of a pair lie. -/
structure Span where
  nameOff : ℕ
  nameLen : ℕ
  valueOff : ℕ
  valueLen : ℕ
  deriving DecidableEq, Repr

/-- Stands in the slots of a ring that hold no pair. -/
def Span.zero : Span := ⟨0, 0, 0, 0⟩

variable {β : Type*} {x : List β × List β} {arena : List β}

/-- `arena[off : off+len]` with a wrapping upper bound; `none` when the bounds
are out of order or out of range. -/
def slice (arena : List β) (off len : ℕ) : Option (List β) :=
  let hi := (off + len) % word
  if off ≤ hi ∧ hi ≤ arena.length then some ((arena.drop off).take (hi - off)) else none

/-- Read both strings of a pair. -/
def Span.read (arena : List β) (e : Span) : Option (List β × List β) := do
  let n ← slice arena e.nameOff e.nameLen
  let v ← slice arena e.valueOff e.valueLen
  return (n, v)

/-- The span of a pair appended to an arena. -/
def spanAt (arena name value : List β) : Span where
  nameOff := arena.length % word
  nameLen := name.length % word
  valueOff := (arena ++ name).length % word
  valueLen := value.length % word

/-- `e` locates the pair `x` in the arena. -/
structure Locates (arena : List β) (e : Span) (x : List β × List β) : Prop where
  name : ∃ pre post, arena = pre ++ x.1 ++ post ∧ e.nameOff = pre.length
  nameLen : e.nameLen = x.1.length
  value : ∃ pre post, arena = pre ++ x.2 ++ post ∧ e.valueOff = pre.length
  valueLen : e.valueLen = x.2.length

theorem slice_mid {pre s post : List β} (h : (pre ++ s ++ post).length < word) :
    slice (pre ++ s ++ post) pre.length s.length = some s := by
  simp only [List.length_append] at h
  have hmod : (pre.length + s.length) % word = pre.length + s.length :=
    Nat.mod_eq_of_lt (by omega)
  simp only [slice, hmod]
  simp

theorem Locates.read {e : Span}
    (h : Locates arena e x) (hw : arena.length < word) : e.read arena = some x := by
  obtain ⟨pre, post, hname, hoff⟩ := h.name
  obtain ⟨pre', post', hvalue, hoff'⟩ := h.value
  have hn : slice arena e.nameOff e.nameLen = some x.1 := by
    rw [hoff, h.nameLen, hname]
    exact slice_mid (hname ▸ hw)
  have hv : slice arena e.valueOff e.valueLen = some x.2 := by
    rw [hoff', h.valueLen, hvalue]
    exact slice_mid (hvalue ▸ hw)
  simp [Span.read, hn, hv]

/-- Appending to the arena moves nothing. -/
theorem Locates.append {e : Span}
    (h : Locates arena e x) (more : List β) : Locates (arena ++ more) e x := by
  obtain ⟨pre, post, hname, hoff⟩ := h.name
  obtain ⟨pre', post', hvalue, hoff'⟩ := h.value
  exact ⟨⟨pre, post ++ more, by simp [hname], hoff⟩, h.nameLen,
    ⟨pre', post' ++ more, by simp [hvalue], hoff'⟩, h.valueLen⟩

theorem locates_spanAt (arena name value : List β)
    (h : (arena ++ name ++ value).length < word) :
    Locates (arena ++ name ++ value) (spanAt arena name value) (name, value) := by
  simp only [List.length_append] at h
  refine ⟨⟨arena, value, rfl, ?_⟩, ?_, ⟨arena ++ name, [], by simp, ?_⟩, ?_⟩ <;>
    simp only [spanAt, List.length_append] <;> exact Nat.mod_eq_of_lt (by omega)

/-- The bytes of a list of pairs. -/
def bytes (l : List (List β × List β)) : ℕ := (l.map fun x => x.1.length + x.2.length).sum

@[simp] theorem bytes_nil : bytes ([] : List (List β × List β)) = 0 := rfl

@[simp] theorem bytes_cons (x : List β × List β) (l : List (List β × List β)) :
    bytes (x :: l) = x.1.length + x.2.length + bytes l := by
  simp [bytes]

@[simp] theorem bytes_append (l l' : List (List β × List β)) :
    bytes (l ++ l') = bytes l + bytes l' := by
  simp [bytes]

/-- Accounting every pair at `k` bytes more than it takes. -/
theorem sum_size_eq (k : ℕ) (l : List (List β × List β)) :
    (l.map fun x => x.1.length + x.2.length + k).sum = bytes l + l.length * k := by
  induction l with
  | nil => simp
  | cons x l ih =>
    simp only [List.map_cons, List.sum_cons, ih, bytes_cons, List.length_cons, Nat.add_mul]
    omega

end PairArena

/-- A ring of spans over an arena; `used` counts the arena bytes of live pairs. -/
structure PairArena (β : Type*) where
  entries : SlotRing PairArena.Span
  arena : List β
  used : ℕ

namespace PairArena

variable {β : Type*}

/-- The empty queue. -/
def empty : PairArena β := ⟨.empty, [], 0⟩

/-- The number of live pairs. -/
def count (p : PairArena β) : ℕ := p.entries.count

/-- The span of the `i`-th oldest pair. -/
def span (p : PairArena β) (i : ℕ) : Option Span := p.entries.toList[i]?

/-- The `i`-th oldest pair. -/
def read (p : PairArena β) (i : ℕ) : Option (List β × List β) :=
  (p.span i).bind (Span.read p.arena)

/-- The slot count a ring is first sized to. -/
def initialRing : ℕ := 32

/-- The slot count a full ring of `n` slots grows to. -/
def grown (n : ℕ) : ℕ := if n * 2 < initialRing then initialRing else n * 2

theorem lt_grown (n : ℕ) : n < grown n := by
  unfold grown initialRing
  split <;> omega

/-- Put `e` in the slot after the newest span; a full ring is doubled first. -/
def pushSpan (r : SlotRing Span) (e : Span) : SlotRing Span :=
  if h : r.count < r.slots.length then r.pushBack e h
  else (r.grow (grown r.slots.length) Span.zero).pushBack e <| by
    have hle := r.count_le.trans (lt_grown r.slots.length).le
    rw [r.length_slots_grow Span.zero hle]
    exact r.count_le.trans_lt (lt_grown _)

theorem toList_pushSpan (r : SlotRing Span) (e : Span) :
    (pushSpan r e).toList = r.toList ++ [e] := by
  unfold pushSpan
  split
  · exact r.toList_pushBack e _
  · rw [SlotRing.toList_pushBack, SlotRing.toList_grow]

/-- Append a pair to the arena and its span to the ring. -/
def append (p : PairArena β) (name value : List β) : PairArena β where
  entries := pushSpan p.entries (spanAt p.arena name value)
  arena := p.arena ++ name ++ value
  used := (p.used + (name.length + value.length) % word) % word

/-- Take the oldest pair, located by `e`, out of the ring. -/
def dropOldest (p : PairArena β) (e : Span) : PairArena β where
  entries := p.entries.popFront
  arena := p.arena
  used := (p.used + word - (e.nameLen + e.valueLen) % word) % word

/-- Copy the pairs located by `es` behind `out`; their new spans and the arena. -/
def repack (arena : List β) : List Span → List β → Option (List Span × List β)
  | [], out => some ([], out)
  | e :: es, out => do
    let (n, v) ← e.read arena
    let (es', out') ← repack arena es (out ++ n ++ v)
    return ({ spanAt out n v with nameLen := e.nameLen, valueLen := e.valueLen } :: es', out')

/-- Rewrite arena and ring so that the live pairs are packed from the front. -/
def compact (p : PairArena β) : Option (PairArena β) := do
  let (es, arena) ← repack p.arena p.entries.toList []
  return ⟨.ofList es, arena, arena.length % word⟩

/-- `p` stands for the pairs `l`, oldest first. -/
structure Holds (p : PairArena β) (l : List (List β × List β)) : Prop where
  spans : List.Forall₂ (Locates p.arena) p.entries.toList l
  used : p.used = bytes l % word
  bound : p.arena.length < word

theorem holds_empty : Holds (empty : PairArena β) [] :=
  ⟨by simp [empty], by simp [empty], by simp [empty, word]⟩

variable {l : List (List β × List β)} {p : PairArena β}

theorem Holds.count_eq (h : Holds p l) :
    p.count = l.length := by
  rw [count, ← SlotRing.length_toList]
  exact h.spans.length_eq

theorem Holds.span (h : Holds p l) {i : ℕ} (hi : i < l.length) :
    ∃ e, p.span i = some e ∧ Locates p.arena e l[i] := by
  have hi' : i < p.entries.toList.length := h.spans.length_eq ▸ hi
  exact ⟨p.entries.toList[i], by simp [PairArena.span], h.spans.get hi' hi⟩

theorem Holds.read (h : Holds p l) {i : ℕ} (hi : i < l.length) : p.read i = some l[i] := by
  obtain ⟨e, hspan, hloc⟩ := h.span hi
  rw [PairArena.read, hspan]
  exact hloc.read h.bound

theorem Holds.append (h : Holds p l) {name value : List β}
    (hw : p.arena.length + name.length + value.length < word) :
    Holds (p.append name value) (l ++ [(name, value)]) := by
  have hlen : (p.arena ++ name ++ value).length < word := by
    simp only [List.length_append]
    omega
  refine ⟨?_, ?_, hlen⟩
  · show List.Forall₂ _ (pushSpan _ _).toList _
    rw [toList_pushSpan]
    refine List.rel_append ?_ (.cons (locates_spanAt _ _ _ hlen) .nil)
    refine h.spans.imp fun e x hloc => ?_
    show Locates (p.arena ++ name ++ value) e x
    rw [List.append_assoc]
    exact hloc.append _
  · show (p.used + _) % word = _
    rw [h.used]
    simp

theorem Holds.dropOldest {x : List β × List β} (h : Holds p (x :: l)) :
    ∃ e, p.span 0 = some e ∧ e.nameLen = x.1.length ∧ e.valueLen = x.2.length ∧
      Holds (p.dropOldest e) l := by
  obtain ⟨e, hspan, hloc⟩ := h.span (i := 0) (by simp)
  have hn : e.nameLen = x.1.length := hloc.nameLen
  have hv : e.valueLen = x.2.length := hloc.valueLen
  refine ⟨e, hspan, hn, hv, ?_, ?_, h.bound⟩
  · show List.Forall₂ _ p.entries.popFront.toList l
    rw [SlotRing.toList_popFront]
    cases hes : p.entries.toList with
    | nil => exact absurd h.spans (by simp [hes])
    | cons e' es =>
      have hspans := h.spans
      rw [hes] at hspans
      exact (List.forall₂_cons.mp hspans).2
  · show (p.used + word - (e.nameLen + e.valueLen) % word) % word = _
    rw [h.used, hv, bytes_cons]
    simp only [word]
    omega

/-- An empty queue needs nothing of its arena. -/
theorem Holds.reset (h : Holds p []) :
    Holds (⟨p.entries, [], p.used⟩ : PairArena β) [] := by
  have hnil : p.entries.toList = [] := List.forall₂_nil_right_iff.mp h.spans
  exact ⟨by simp [hnil], h.used, by simp [word]⟩

theorem repack_spec {arena : List β} (hw : arena.length < word) {es : List Span}
    (h : List.Forall₂ (Locates arena) es l) :
    ∀ out : List β, out.length + bytes l < word →
      ∃ es' more, repack arena es out = some (es', out ++ more) ∧ more.length = bytes l ∧
        List.Forall₂ (Locates (out ++ more)) es' l := by
  -- the copied pairs stay where they are while later ones are appended behind them
  induction h with
  | nil =>
    intro out _
    exact ⟨[], [], by simp [repack], rfl, .nil⟩
  | @cons e x es l hloc _ ih =>
    intro out hout
    rw [bytes_cons] at hout
    obtain ⟨es', more, hrun, hmore, hall⟩ := ih (out ++ x.1 ++ x.2) (by
      simp only [List.length_append]; omega)
    refine ⟨spanAt out x.1 x.2 :: es', x.1 ++ x.2 ++ more, ?_, ?_, .cons ?_ ?_⟩
    · have hlen : ({ spanAt out x.1 x.2 with nameLen := e.nameLen, valueLen := e.valueLen } : Span)
          = spanAt out x.1 x.2 := by
        simp only [spanAt, hloc.nameLen, hloc.valueLen, Span.mk.injEq, true_and]
        exact ⟨(Nat.mod_eq_of_lt (by omega)).symm, (Nat.mod_eq_of_lt (by omega)).symm⟩
      rw [List.append_assoc] at hrun
      simp [repack, hloc.read hw, hrun, hlen]
    · simp [hmore, Nat.add_assoc]
    · have := (locates_spanAt out x.1 x.2 (by
        simp only [List.length_append]; omega)).append more
      simpa using this
    · simpa using hall

/-- Compaction keeps the pairs and leaves no gap in the arena. -/
theorem Holds.compact (h : Holds p l) (hw : bytes l < word) :
    ∃ p', p.compact = some p' ∧ Holds p' l ∧ p'.arena.length = bytes l := by
  obtain ⟨es, more, hrun, hmore, hall⟩ := repack_spec h.bound h.spans [] (by simpa using hw)
  exact ⟨⟨.ofList es, more, more.length % word⟩, by simp [PairArena.compact, hrun],
    ⟨by simpa using hall, by simp [hmore], by simpa [hmore] using hw⟩, hmore⟩

end PairArena
