import Mathlib.Data.List.Basic

/-!
# Reading a buffer by position

Code that parses a buffer keeps a position and reads at it; a read outside of the buffer is a
fault of the code, not of the input. A `Reader` is such code: it knows the buffer, moves the
position, and every access is checked. A `Parser` takes what is at the front of a list and
cannot read outside.

`Reads r q e`: at every position of every buffer the reader does what the parser does with the
elements from there on, and refuses with `e` what the parser refuses; so it has no fault. The
rules follow the way readers are put together.
-/

namespace Cursor

variable {α β γ ε : Type}

/-- Why a reader stops: it refuses what is there, or it reads outside of the buffer. -/
inductive Stop (ε : Type) where
  | refused (e : ε)
  | outOfBounds
  deriving DecidableEq, Repr

abbrev Reader (α ε : Type) : Type → Type := ReaderT (List α) (StateT ℕ (Except (Stop ε)))

abbrev Parser (α : Type) : Type → Type := StateT (List α) Option

/-! ## The accesses of a reader -/

/-- `len(b)`. -/
def size : Reader α ε ℕ := fun b p => .ok (b.length, p)

def position : Reader α ε ℕ := fun _ p => .ok (p, p)

def refuse (e : ε) : Reader α ε β := fun _ _ => .error (.refused e)

/-- The elements from the position on, `b[p:]`. -/
def tail : Reader α ε (List α) := fun b p =>
  if p ≤ b.length then .ok (b.drop p, p) else .error .outOfBounds

/-- `p += n`. -/
def skip (n : ℕ) : Reader α ε Unit := fun _ p => .ok ((), p + n)

/-- The next `n` elements, `b[p:p+n]`, and past them. -/
def next (n : ℕ) : Reader α ε (List α) := fun b p =>
  if p + n ≤ b.length then .ok ((b.drop p).take n, p + n) else .error .outOfBounds

/-- The element at the position, `b[p]`, and past it. -/
def elem : Reader α ε α := fun b p =>
  match b[p]? with
  | some a => .ok (a, p + 1)
  | none => .error .outOfBounds

/-! ## Readers and parsers -/

/-- What the reader does at `p`, given what the parser does there. -/
def Agrees (b : List α) (p : ℕ) (e : ε) (res : Except (Stop ε) (β × ℕ)) :
    Option (β × List α) → Prop
  | some (x, rest) => ∃ p', p ≤ p' ∧ p' ≤ b.length ∧ b.drop p' = rest ∧ res = .ok (x, p')
  | none => res = .error (.refused e)

def Reads (r : Reader α ε β) (q : Parser α β) (e : ε) : Prop :=
  ∀ b p, p ≤ b.length → Agrees b p e (r b p) (q (b.drop p))

/-- The position is told by how much is left. -/
theorem position_of_drop {b rest : List α} {p : ℕ} (hp : p ≤ b.length) (hrest : b.drop p = rest) :
    b.length - rest.length = p := by
  rw [← hrest, List.length_drop]
  omega

/-- A reader that has taken `x` goes on at the position after it. -/
theorem run_bind {r : Reader α ε β} {k : β → Reader α ε γ} {b : List α} {p p' : ℕ} {x : β}
    (h : r b p = .ok (x, p')) : (r >>= k) b p = k x b p' := by
  show (r b p >>= fun y => k y.1 b y.2) = _
  rw [h]
  rfl

/-- The front of a list, if it has so many elements. -/
def front (n : ℕ) : Parser α (List α) := fun src =>
  if src.length < n then none else some (src.take n, src.drop n)

/-- A parser that has taken `x` goes on with the rest. -/
theorem bind_eq {q : Parser α β} {k : β → Parser α γ} {src rest : List α} {x : β}
    (h : q src = some (x, rest)) : (q >>= k) src = k x rest := by
  show ((q src).bind fun y => k y.1 y.2) = _
  rw [h]
  rfl

theorem front_append {n : ℕ} {l : List α} (h : l.length = n) (rest : List α) :
    front n (l ++ rest) = some (l, rest) := by
  have hlen : ¬ (l ++ rest).length < n := by
    rw [List.length_append]
    omega
  rw [front, if_neg hlen, List.take_left' h, List.drop_left' h]

namespace Reads

variable {e : ε} {r : Reader α ε β} {q : Parser α β}

protected theorem pure (x : β) : Reads (pure x : Reader α ε β) (pure x) e := by
  intro b p hp
  exact ⟨p, Nat.le_refl p, hp, rfl, rfl⟩

protected theorem refuse : Reads (refuse e : Reader α ε β) (fun _ => none) e := by
  intro b p _
  rfl

/-- One reader after another. -/
protected theorem bind {k : β → Reader α ε γ} {j : β → Parser α γ} (h : Reads r q e)
    (hk : ∀ x, Reads (k x) (j x) e) : Reads (r >>= k) (q >>= j) e := by
  intro b p hp
  have hfirst := h b p hp
  show Agrees b p e (r b p >>= fun y => k y.1 b y.2)
    ((q (b.drop p)).bind fun y => j y.1 y.2)
  cases hq : q (b.drop p) with
  | none =>
    rw [hq] at hfirst
    rw [show r b p = .error (.refused e) from hfirst]
    rfl
  | some y =>
    rcases y with ⟨x, rest⟩
    rw [hq] at hfirst
    rcases hfirst with ⟨p', hle, hlen, hrest, hr⟩
    have hnext := hk x b p' hlen
    rw [hrest] at hnext
    rw [hr]
    show Agrees b p e (k x b p') (j x rest)
    cases hj : j x rest with
    | none =>
      rw [hj] at hnext
      exact hnext
    | some z =>
      rw [hj] at hnext
      rcases hnext with ⟨p'', hle', hlen', hrest', hr'⟩
      exact ⟨p'', Nat.le_trans hle hle', hlen', hrest', hr'⟩

/-- The reader takes what the parser takes. -/
theorem run (h : Reads r q e) {b rest : List α} {p : ℕ} {x : β} (hp : p ≤ b.length)
    (hq : q (b.drop p) = some (x, rest)) :
    ∃ p', p ≤ p' ∧ p' ≤ b.length ∧ b.drop p' = rest ∧ r b p = .ok (x, p') := by
  have hread := h b p hp
  rw [hq] at hread
  exact hread

/-- A choice that both sides make. -/
protected theorem ite {c : Prop} [Decidable c] {r' : Reader α ε β} {q' : Parser α β}
    (h : Reads r q e) (h' : Reads r' q' e) :
    Reads (if c then r else r') (if c then q else q') e := by
  split_ifs
  · exact h
  · exact h'

/-- The next `n` elements, where the code checks that there are so many in the way of `c`. -/
protected theorem next {c : ℕ → ℕ → Prop} [∀ m p, Decidable (c m p)] (n : ℕ)
    (hc : ∀ m p, p ≤ m → (c m p ↔ m - p < n)) :
    Reads (do if c (← size) (← position) then refuse e else next n) (front n : Parser α _) e := by
  intro b p hp
  show Agrees b p e ((if c b.length p then refuse e else next n : Reader α ε _) b p) _
  rw [front, List.length_drop]
  by_cases hshort : b.length - p < n
  · rw [if_pos hshort, if_pos ((hc b.length p hp).mpr hshort)]
    rfl
  · rw [if_neg hshort, if_neg (fun h => hshort ((hc b.length p hp).mp h))]
    refine ⟨p + n, by omega, by omega, ?_, ?_⟩
    · rw [List.drop_drop]
    · exact if_pos (by omega)

end Reads

end Cursor
