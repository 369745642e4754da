import Mathlib.Algebra.BigOperators.Group.List.Basic
import Mathlib.Algebra.Ring.Nat
import Mathlib.Data.List.Nodup

/-!
# A change at one place of a list

Objects that others keep a handle to are a list that only grows, and a handle is a place in it.
An operation on one object is `List.modify`; the lemmas say what a view of the objects, a sum
over them or their membership knows of such a change.
-/

namespace Modify

variable {α β : Type} {xs : List α} {h : ℕ} {a : α}

variable {b : α} {f : α → α} {g : α → β}

/-- A view that the change respects changes at the same place. -/
theorem map_modify {k : β → β} (hf : ∀ a, g (f a) = k (g a)) (xs : List α) (h : ℕ) :
    (xs.modify h f).map g = (xs.map g).modify h k := by
  apply List.ext_getElem?
  intro i
  simp only [List.getElem?_map, List.getElem?_modify]
  by_cases hi : h = i
  · cases xs[i]? <;> simp [hi, hf]
  · cases xs[i]? <;> simp [hi]

/-- A view that the change does not touch stays. -/
theorem map_modify_of_eq (hf : ∀ a, g (f a) = g a) (xs : List α) (h : ℕ) :
    (xs.modify h f).map g = xs.map g := by
  rw [map_modify (k := id) hf, List.modify_id]

/-- The same at one place. -/
theorem getElem?_modify_of_eq (hf : ∀ a, g (f a) = g a) (xs : List α) (h i : ℕ) :
    (xs.modify h f)[i]?.map g = xs[i]?.map g := by
  rw [← List.getElem?_map, map_modify_of_eq hf, List.getElem?_map]

/-- The place behind a front. -/
theorem modify_append (pre : List α) (x : α) (post : List α) (f : α → α) :
    (pre ++ x :: post).modify pre.length f = pre ++ f x :: post := by
  induction pre with
  | nil => rfl
  | cons y pre ih => simpa using ih

/-- The change depends on what is at the place. -/
theorem modify_congr (ha : xs[h]? = some a) {g : α → α} (hfg : f a = g a) :
    xs.modify h f = xs.modify h g := by
  apply List.ext_getElem?
  intro i
  simp only [List.getElem?_modify]
  by_cases hi : h = i
  · subst hi
    simp [ha, hfg]
  · simp [hi]

/-- What is at a place after the change was there, or is what changed. -/
theorem getElem?_modify_cases {i : ℕ} (hb : (xs.modify h f)[i]? = some b) :
    h ≠ i ∧ xs[i]? = some b ∨ h = i ∧ ∃ a, xs[i]? = some a ∧ b = f a := by
  rw [List.getElem?_modify] at hb
  rcases Option.map_eq_some_iff.mp hb with ⟨a, ha, rfl⟩
  by_cases heq : h = i
  · exact .inr ⟨heq, a, ha, if_pos heq⟩
  · exact .inl ⟨heq, by rw [if_neg heq, ha]⟩

/-- What is in the list after the change is at another place, or is what changed. -/
theorem getElem?_of_mem_modify (ha : xs[h]? = some a) (hb : b ∈ xs.modify h f) :
    (∃ i, i ≠ h ∧ xs[i]? = some b) ∨ b = f a := by
  rcases List.mem_iff_getElem?.mp hb with ⟨i, hi⟩
  rcases getElem?_modify_cases hi with ⟨hne, hi⟩ | ⟨rfl, a', ha', rfl⟩
  · exact .inl ⟨i, hne.symm, hi⟩
  · rw [ha] at ha'
    exact .inr (by rw [Option.some.inj ha'])

theorem mem_modify (ha : xs[h]? = some a) (hb : b ∈ xs.modify h f) :
    b ∈ xs ∨ b = f a := by
  rcases getElem?_of_mem_modify ha hb with ⟨i, _, hi⟩ | hb
  · exact .inl (List.mem_of_getElem? hi)
  · exact .inr hb

/-- What holds of all and of what is put in holds of all afterwards. -/
theorem forall_modify {P : α → Prop} (ha : xs[h]? = some a) (hxs : ∀ b ∈ xs, P b) (hfa : P (f a)) :
    ∀ b ∈ xs.modify h f, P b := by
  intro b hb
  rcases mem_modify ha hb with hb | rfl
  · exact hxs b hb
  · exact hfa

/-- What is not what changed stays in the list. -/
theorem mem_modify_of_ne (ha : xs[h]? = some a) (hne : b ≠ a) (hb : b ∈ xs) :
    b ∈ xs.modify h f := by
  rcases List.mem_iff_getElem?.mp hb with ⟨i, hi⟩
  have hplace : h ≠ i := by
    rintro rfl
    rw [ha] at hi
    exact hne (Option.some.inj hi).symm
  apply List.mem_of_getElem? (i := i)
  simp [hplace, hi]

/-- Where a view of the objects has no repetition, it tells the place. -/
theorem place_unique (hn : (xs.map g).Nodup) {i j : ℕ} {c : α} (hi : xs[i]? = some b)
    (hj : xs[j]? = some c) (h : g b = g c) : i = j := by
  have hlt : i < (xs.map g).length := by simpa using (List.getElem?_eq_some_iff.mp hi).1
  apply (List.getElem?_inj hlt hn).mp
  simp [hi, hj, h]

/-- A sum moves by what its one entry moves. -/
theorem sum_map_modify (ha : xs[h]? = some a) (g : α → ℕ) (f : α → α) :
    ((xs.modify h f).map g).sum + g a = (xs.map g).sum + g (f a) := by
  induction xs generalizing h with
  | nil => simp at ha
  | cons b xs ih =>
    cases h with
    | zero =>
      simp only [List.getElem?_cons_zero, Option.some.injEq] at ha
      subst ha
      simp only [List.modify_zero_cons, List.map_cons, List.sum_cons]
      omega
    | succ h =>
      simp only [List.getElem?_cons_succ] at ha
      have hrest := ih ha
      simp only [List.modify_succ_cons, List.map_cons, List.sum_cons]
      omega

end Modify
