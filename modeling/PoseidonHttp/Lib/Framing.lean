import Mathlib.Algebra.Ring.Nat
import Mathlib.Data.List.Basic

/-!
# Framed items in a string that arrives in pieces

A format looks at the front of a string and finds a whole item and how long it is, the beginning
of one, or something that is no item. What it has decided does not change when more arrives:
`item_append`, `broken_append`.

`parse` reads a string in one go. A reader that gets the string in pieces keeps the items it has
returned and what is still pending; `Carries` relates the two to all it was given, whatever may
still come, and each of its two steps keeps that relation.
-/

namespace Framing

variable {α ι ε : Type*}

/-- What stands at the front of a string. -/
inductive Front (ι ε : Type*) where
  /-- A whole item, and the length of its frame. -/
  | item (i : ι) (size : ℕ)
  /-- The beginning of a frame. -/
  | short
  | broken (e : ε)
  deriving DecidableEq

structure Format (α ι ε : Type*) where
  front : List α → Front ι ε
  size_pos : ∀ {s i n}, front s = .item i n → 0 < n
  size_le : ∀ {s i n}, front s = .item i n → n ≤ s.length
  item_append : ∀ {s i n} (t : List α), front s = .item i n → front (s ++ t) = .item i n
  broken_append : ∀ {s e} (t : List α), front s = .broken e → front (s ++ t) = .broken e

/-- The items of a string, why reading stopped if it is no sequence of frames, and what is
left where it stopped. -/
@[ext]
structure Parse (α ι ε : Type*) where
  items : List ι
  fault : Option ε
  rest : List α
  deriving DecidableEq

/-- More items in front. -/
def Parse.prepend (is : List ι) (p : Parse α ι ε) : Parse α ι ε := { p with items := is ++ p.items }

@[simp] theorem Parse.prepend_nil (p : Parse α ι ε) : p.prepend [] = p := rfl

@[simp] theorem Parse.prepend_items (is : List ι) (p : Parse α ι ε) :
    (p.prepend is).items = is ++ p.items := rfl

@[simp] theorem Parse.prepend_rest (is : List ι) (p : Parse α ι ε) :
    (p.prepend is).rest = p.rest := rfl

@[simp] theorem Parse.prepend_prepend (is js : List ι) (p : Parse α ι ε) :
    (p.prepend js).prepend is = p.prepend (is ++ js) := by
  simp [prepend]

namespace Format

variable (f : Format α ι ε)

/-- The loop of `parse`, with a bound on its turns. -/
def scan : ℕ → List α → Parse α ι ε
  | 0, s => ⟨[], none, s⟩
  | fuel + 1, s =>
    match f.front s with
    | .item i n => (scan fuel (s.drop n)).prepend [i]
    | .short => ⟨[], none, s⟩
    | .broken e => ⟨[], some e, s⟩

/-- A string read in one go. -/
def parse (s : List α) : Parse α ι ε := f.scan (s.length + 1) s

variable {f} {s t pending pushed : List α} {i : ι} {is : List ι} {n : ℕ} {e : ε}

theorem length_drop_lt (h : f.front s = .item i n) : (s.drop n).length < s.length := by
  have hpos := f.size_pos h
  have hle := f.size_le h
  rw [List.length_drop]
  omega

/-- Once there are more turns than elements, their number does not matter. -/
theorem scan_eq_scan {fuel fuel' : ℕ} (h : s.length < fuel) (h' : s.length < fuel') :
    f.scan fuel s = f.scan fuel' s := by
  induction fuel generalizing fuel' s with
  | zero => omega
  | succ fuel ih =>
    cases fuel' with
    | zero => omega
    | succ fuel' =>
      rw [scan, scan]
      cases hfront : f.front s with
      | item i n =>
        have hlt := length_drop_lt hfront
        dsimp only
        rw [ih (by omega) (show (s.drop n).length < fuel' by omega)]
      | short | broken => rfl

theorem parse_item (h : f.front s = .item i n) : f.parse s = (f.parse (s.drop n)).prepend [i] := by
  have hlt := length_drop_lt h
  rw [parse, scan, h, parse]
  dsimp only
  rw [scan_eq_scan hlt (Nat.lt_succ_self _)]

theorem parse_short (h : f.front s = .short) : f.parse s = ⟨[], none, s⟩ := by
  rw [parse, scan, h]

theorem parse_broken (h : f.front s = .broken e) : f.parse s = ⟨[], some e, s⟩ := by
  rw [parse, scan, h]

/-- The cases of reading a string in one go. -/
theorem parse_induction {P : List α → Prop}
    (item : ∀ {s i n}, f.front s = .item i n → P (s.drop n) → P s)
    (short : ∀ {s}, f.front s = .short → P s)
    (broken : ∀ {s e}, f.front s = .broken e → P s) (s : List α) : P s := by
  induction hlen : s.length using Nat.strongRecOn generalizing s with
  | ind len ih =>
    cases hfront : f.front s with
    | item i n => exact item hfront (ih _ (hlen ▸ length_drop_lt hfront) _ rfl)
    | short => exact short hfront
    | broken e => exact broken hfront

/-- Where the length of a frame is known from its item, nothing is lost or read twice. -/
theorem length_eq_of_parse (size : ι → ℕ)
    (hsize : ∀ {s i n}, f.front s = .item i n → n = size i) (s : List α) :
    s.length = ((f.parse s).items.map size).sum + (f.parse s).rest.length := by
  induction s using f.parse_induction with
  | @item s i n hfront ih =>
    have hle := f.size_le hfront
    rw [parse_item hfront]
    simp only [Parse.prepend_items, Parse.prepend_rest, List.singleton_append, List.map_cons,
      List.sum_cons, ← hsize hfront]
    rw [List.length_drop] at ih
    omega
  | short hfront => simp [parse_short hfront]
  | broken hfront => simp [parse_broken hfront]

/-- The items of the beginning come first; what is left of it is read on with what follows. -/
theorem parse_append (t : List α) (h : (f.parse s).fault = none) :
    f.parse (s ++ t) = (f.parse ((f.parse s).rest ++ t)).prepend (f.parse s).items := by
  induction s using f.parse_induction with
  | @item s i n hfront ih =>
    rw [parse_item hfront] at h ⊢
    rw [parse_item (f.item_append t hfront), List.drop_append_of_le_length (f.size_le hfront), ih h]
    simp
  | short hfront => simp [parse_short hfront]
  | broken hfront => simp [parse_broken hfront] at h

/-- What ends the reading of the beginning ends it for good. -/
theorem parse_append_of_fault (t : List α) (h : (f.parse s).fault = some e) :
    f.parse (s ++ t) = ⟨(f.parse s).items, some e, (f.parse s).rest ++ t⟩ := by
  induction s using f.parse_induction with
  | @item s i n hfront ih =>
    rw [parse_item hfront] at h ⊢
    rw [parse_item (f.item_append t hfront), List.drop_append_of_le_length (f.size_le hfront), ih h]
    rfl
  | short hfront => simp [parse_short hfront] at h
  | @broken s e' hfront =>
    rw [parse_broken hfront] at h ⊢
    rw [parse_broken (f.broken_append t hfront)]
    obtain rfl := Option.some.inj h
    rfl

/-! ## In pieces -/

variable (f) in
/-- A reader that was given `pushed` has returned `is` and holds `pending`: whatever comes next, it
is on the way to the same result as reading everything in one go. -/
def Carries (is : List ι) (pending pushed : List α) : Prop :=
  ∀ t, f.parse (pushed ++ t) = (f.parse (pending ++ t)).prepend is

namespace Carries

theorem start : f.Carries [] [] [] := by
  intro t
  rfl

section Carries

variable (h : f.Carries is pending pushed)

include h

theorem push (piece : List α) : f.Carries is (pending ++ piece) (pushed ++ piece) := by
  intro t
  rw [List.append_assoc, List.append_assoc]
  exact h (piece ++ t)

/-- Taking the item at the front. -/
theorem next (hfront : f.front pending = .item i n) :
    f.Carries (is ++ [i]) (pending.drop n) pushed := by
  intro t
  have hwhole := f.item_append t hfront
  rw [h t, parse_item hwhole, List.drop_append_of_le_length (f.size_le hfront),
    Parse.prepend_prepend]

theorem parse_eq : f.parse pushed = (f.parse pending).prepend is := by
  have hnow := h []
  rwa [List.append_nil, List.append_nil] at hnow

/-- The reader waits: everything there is has been returned. -/
theorem parse_of_short (hfront : f.front pending = .short) :
    f.parse pushed = ⟨is, none, pending⟩ := by
  rw [h.parse_eq, parse_short hfront]
  simp [Parse.prepend]

/-- The reader reports an error: it is the one that ends the whole. -/
theorem parse_of_broken (hfront : f.front pending = .broken e) :
    f.parse pushed = ⟨is, some e, pending⟩ := by
  rw [h.parse_eq, parse_broken hfront]
  simp [Parse.prepend]

end Carries

end Carries

end Format

end Framing
