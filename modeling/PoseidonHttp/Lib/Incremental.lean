import Mathlib.Tactic.Common

/-!
# Incremental parsers

A parser that takes items off the front of its input, each of which may change a state, and leaves
a partial item for the next call. An answer to the front of the input stands whatever follows
(`Parser.stands`), so the input may be cut anywhere: `feed_eq` says that the calls on the chunks,
with what each leaves carried over, come to what one call on the whole input does.
-/

namespace Incremental

variable {σ α ε : Type*}

/-- The answer to the front of the input. -/
inductive Step (σ ε : Type*) where
  | wait
  | fail (e : ε)
  | take (n : ℕ) (s : σ)

/-- The front of a nonempty input; `none` is a crash. -/
structure Parser (σ α ε : Type*) where
  step : σ → List α → Option (Step σ ε)
  size : ∀ {s s' src n}, step s src = some (.take n s') → 0 < n ∧ n ≤ src.length
  stands : ∀ {s src} (more : List α), src ≠ [] → step s src ≠ some .wait →
    step s (src ++ more) = step s src

/-- What a call returns: what it consumed, the state, and the error that stopped it. -/
abbrev Result (σ ε : Type*) := Option (ℕ × σ × Option ε)

/-- A result behind `n` units that were consumed before. -/
def Result.after (n : ℕ) (r : Result σ ε) : Result σ ε := r.map fun x => (n + x.1, x.2)

@[simp] theorem Result.after_zero (r : Result σ ε) : r.after 0 = r := by
  cases r <;> simp [after]

theorem Result.after_after (m n : ℕ) (r : Result σ ε) : (r.after n).after m = r.after (m + n) := by
  cases r <;> simp [after, Nat.add_assoc]

/-- Calls on chunks, each in front of which stands what the last one left, until one fails. -/
def feed (parse : σ → List α → Result σ ε) : σ → List α → List (List α) → Result σ ε
  | s, _, [] => some (0, s, none)
  | s, pending, chunk :: chunks =>
    match parse s (pending ++ chunk) with
    | none => none
    | some (n, s, some e) => some (n, s, some e)
    | some (n, s, none) => (feed parse s ((pending ++ chunk).drop n) chunks).after n

namespace Parser

variable (P : Parser σ α ε) {s s' : σ} {src more pending : List α} {n : ℕ} {e : Option ε}

def loop : ℕ → σ → List α → Result σ ε
  | 0, s, _ => some (0, s, none)
  | _ + 1, s, [] => some (0, s, none)
  | fuel + 1, s, x :: src =>
    match P.step s (x :: src) with
    | none => none
    | some .wait => some (0, s, none)
    | some (.fail e) => some (0, s, some e)
    | some (.take n s) => (loop fuel s ((x :: src).drop n)).after n

def parse (s : σ) (src : List α) : Result σ ε := P.loop src.length s src

/-- Every item that is taken leaves less. -/
theorem induction {motive : σ → List α → Prop} (nil : ∀ s, motive s [])
    (stop : ∀ s src, src ≠ [] → (∀ n s', P.step s src ≠ some (.take n s')) → motive s src)
    (take : ∀ s src n s', src ≠ [] → P.step s src = some (.take n s') → motive s' (src.drop n) →
      motive s src) (s : σ) (src : List α) : motive s src := by
  induction hlen : src.length using Nat.strongRecOn generalizing s src with
  | ind len ih =>
    by_cases hsrc : src = []
    · rw [hsrc]
      exact nil s
    · by_cases hstep : ∃ n s', P.step s src = some (.take n s')
      · obtain ⟨n, s', hstep⟩ := hstep
        have hsize := P.size hstep
        exact take s src n s' hsrc hstep (ih _ (by rw [List.length_drop]; omega) s' _ rfl)
      · exact stop s src hsrc fun n s' h => hstep ⟨n, s', h⟩

theorem loop_fuel {fuel : ℕ} (h : src.length ≤ fuel) : P.loop fuel s src = P.parse s src := by
  have hmore : ∀ k, src.length ≤ k → P.loop fuel s src = P.loop k s src := by
    induction fuel generalizing s src with
    | zero =>
      intro k _
      obtain rfl := List.length_eq_zero_iff.mp (Nat.le_zero.mp h)
      cases k <;> rfl
    | succ fuel ih =>
      intro k hk
      cases src with
      | nil => cases k <;> rfl
      | cons x src =>
        rw [List.length_cons] at h hk
        obtain ⟨k, rfl⟩ : ∃ j, k = j + 1 := ⟨k - 1, by omega⟩
        rw [loop, loop]
        rcases hstep : P.step s (x :: src) with _ | _ | e | ⟨n, s'⟩
        · rfl
        · rfl
        · rfl
        · have hsize := P.size hstep
          have hdrop : ((x :: src).drop n).length ≤ src.length := by
            rw [List.length_drop, List.length_cons]
            omega
          dsimp only
          rw [ih (by omega) k (by omega)]
  exact hmore _ (Nat.le_refl _)

theorem parse_eq (h : src ≠ []) :
    P.parse s src =
      match P.step s src with
      | none => none
      | some .wait => some (0, s, none)
      | some (.fail e) => some (0, s, some e)
      | some (.take n s) => (P.parse s (src.drop n)).after n := by
  obtain ⟨x, src, rfl⟩ := List.exists_cons_of_ne_nil h
  rw [parse, List.length_cons, loop]
  rcases hstep : P.step s (x :: src) with _ | _ | e | ⟨n, s'⟩
  · rfl
  · rfl
  · rfl
  · have hsize := P.size hstep
    dsimp only
    rw [P.loop_fuel]
    rw [List.length_drop, List.length_cons]
    omega

/-- What a call did on the beginning it does on all of the input, and goes on. -/
theorem parse_append (s : σ) (src more : List α) :
    P.parse s (src ++ more) =
      match P.parse s src with
      | none => none
      | some (n, s, some e) => some (n, s, some e)
      | some (n, s, none) => (P.parse s (src.drop n ++ more)).after n := by
  induction s, src using P.induction with
  | nil s => exact (Result.after_zero _).symm
  | stop s src hsrc hstop =>
    by_cases hwait : P.step s src = some .wait
    · rw [P.parse_eq hsrc, hwait]
      exact (Result.after_zero _).symm
    · rw [P.parse_eq (List.append_ne_nil_of_left_ne_nil hsrc more), P.stands more hsrc hwait,
        P.parse_eq hsrc]
      rcases hstep : P.step s src with _ | _ | e | ⟨n, s'⟩
      · rfl
      · exact absurd hstep hwait
      · rfl
      · exact absurd hstep (hstop n s')
  | take s src n s' hsrc hstep ih =>
    have hsize := P.size hstep
    rw [P.parse_eq (List.append_ne_nil_of_left_ne_nil hsrc more),
      P.stands more hsrc (by rw [hstep]; simp), P.parse_eq hsrc, hstep]
    dsimp only
    rw [List.drop_append_of_le_length hsize.2, ih]
    rcases P.parse s' (src.drop n) with _ | ⟨m, s'', _ | e⟩
    · rfl
    · simp [Result.after, List.drop_drop, Nat.add_assoc, Function.comp_def]
    · rfl

/-- What is left is nothing to a call that did not fail. -/
theorem parse_rest (h : P.parse s src = some (n, s', none)) :
    P.parse s' (src.drop n) = some (0, s', none) := by
  have happend := P.parse_append s src []
  rw [List.append_nil, h] at happend
  dsimp only at happend
  rw [List.append_nil] at happend
  obtain ⟨⟨m, out⟩, hrest, hout⟩ := Option.map_eq_some_iff.mp happend.symm
  obtain ⟨hm, rfl⟩ := Prod.mk.inj hout
  obtain rfl : m = 0 := by omega
  exact hrest

/-- Chunks that follow what a call left come to what the whole input does. -/
theorem feed_eq (chunks : List (List α)) (h : P.parse s pending = some (0, s, none)) :
    feed P.parse s pending chunks = P.parse s (pending ++ chunks.flatten) := by
  induction chunks generalizing s pending with
  | nil =>
    rw [List.flatten_nil, List.append_nil, h]
    rfl
  | cons chunk chunks ih =>
    have hwhole := P.parse_append s (pending ++ chunk) chunks.flatten
    rw [feed, List.flatten_cons, ← List.append_assoc, hwhole]
    rcases hparse : P.parse s (pending ++ chunk) with _ | ⟨n, s', _ | e⟩
    · rfl
    · dsimp only
      rw [ih (P.parse_rest hparse)]
    · rfl

/-- Whole items at the front of the input, `n` units long together, lead from one state to the other. -/
inductive Items : σ → List α → ℕ → σ → Prop
  | nil {s : σ} {src : List α} : Items s src 0 s
  | cons {s s₁ s' : σ} {src : List α} {n m : ℕ} (h : P.step s src = some (.take n s₁))
      (hrest : Items s₁ (src.drop n) m s') : Items s src (n + m) s'

/-- Where a call stops: at the end, at a partial item, or at one that is refused. -/
def Stops (s : σ) (src : List α) : Option ε → Prop
  | none => src = [] ∨ P.step s src = some .wait
  | some e => P.step s src = some (.fail e)

theorem items_of_parse (h : P.parse s src = some (n, s', e)) :
    P.Items s src n s' ∧ P.Stops s' (src.drop n) e := by
  induction s, src using P.induction generalizing n with
  | nil s =>
    cases h
    exact ⟨.nil, .inl rfl⟩
  | stop s src hsrc hstop =>
    rw [P.parse_eq hsrc] at h
    rcases hstep : P.step s src with _ | _ | e | ⟨n, s'⟩
    · rw [hstep] at h
      cases h
    · rw [hstep] at h
      cases h
      exact ⟨.nil, .inr hstep⟩
    · rw [hstep] at h
      cases h
      exact ⟨.nil, hstep⟩
    · exact absurd hstep (hstop n s')
  | take s src m s₁ hsrc hstep ih =>
    rw [P.parse_eq hsrc, hstep] at h
    obtain ⟨⟨k, out⟩, hrest, hout⟩ := Option.map_eq_some_iff.mp h
    obtain ⟨rfl, rfl⟩ := Prod.mk.inj hout
    obtain ⟨hitems, hstops⟩ := ih hrest
    rw [List.drop_drop] at hstops
    exact ⟨.cons hstep hitems, hstops⟩

theorem Items.le (h : P.Items s src n s') : n ≤ src.length := by
  induction h with
  | nil => exact Nat.zero_le _
  | cons h _ ih =>
    have hsize := P.size h
    rw [List.length_drop] at ih
    omega

/-- A stream that is made of items, `Rest s bytes` saying that `bytes` are what is left of it in the
state `s`: on any beginning of it the whole items are taken, and what is left is left of the
stream. -/
theorem parse_of_rest (Rest : σ → List α → Prop)
    (next : ∀ {s bytes}, Rest s bytes → bytes = [] ∨ ∃ item rest s', bytes = item ++ rest ∧
      P.step s item = some (.take item.length s') ∧ Rest s' rest)
    (h : Rest s (src ++ more)) :
    ∃ n s', P.parse s src = some (n, s', none) ∧ Rest s' (src.drop n ++ more) := by
  -- an answer to the input is the answer to the next item
  have hfirst : ∀ {s src}, src ≠ [] → Rest s (src ++ more) → P.step s src ≠ some .wait →
      ∃ item rest s', P.step s src = some (.take item.length s') ∧ src = item ++ rest ∧
        Rest s' (rest ++ more) := by
    intro s src hsrc h hwait
    rcases next h with hnil | ⟨item, rest, s', hsplit, hstep, hrest⟩
    · exact absurd (List.append_eq_nil_iff.mp hnil).1 hsrc
    have hsize := P.size hstep
    rcases List.append_eq_append_iff.mp hsplit with ⟨m, hitem, hmore⟩ | ⟨src', hsrc', rfl⟩
    · -- the input ends inside the item, or with it
      rw [hitem, P.stands m hsrc hwait] at hstep
      have hle := (P.size hstep).2
      rw [List.length_append] at hle
      obtain rfl : m = [] := List.length_eq_zero_iff.mp (by omega)
      rw [List.append_nil] at hitem
      refine ⟨item, [], s', ?_, by rw [hitem, List.append_nil], by rw [hmore]; exact hrest⟩
      rw [hitem, hstep, List.append_nil]
    · have hne : item ≠ [] := List.ne_nil_of_length_pos hsize.1
      refine ⟨item, src', s', ?_, hsrc', hrest⟩
      rw [hsrc', P.stands src' hne (by rw [hstep]; simp), hstep]
  induction s, src using P.induction with
  | nil s => exact ⟨0, s, rfl, h⟩
  | stop s src hsrc hstop =>
    by_cases hwait : P.step s src = some .wait
    · exact ⟨0, s, by rw [P.parse_eq hsrc, hwait], h⟩
    · obtain ⟨item, rest, s', hstep, -⟩ := hfirst hsrc h hwait
      exact absurd hstep (hstop _ _)
  | take s src n s' hsrc hstep ih =>
    obtain ⟨item, rest, s₁, hitem, rfl, hrest⟩ := hfirst hsrc h (by rw [hstep]; simp)
    rw [hstep] at hitem
    cases hitem
    rw [List.drop_left] at ih
    obtain ⟨n, s'', hparse, hleft⟩ := ih hrest
    refine ⟨item.length + n, s'', ?_, ?_⟩
    · rw [P.parse_eq hsrc, hstep]
      dsimp only
      rw [List.drop_left, hparse]
      rfl
    · rw [← List.drop_drop, List.drop_left]
      exact hleft

/-- Cutting the input does not matter, and a call goes from item to item. -/
structure Whole (parse : σ → List α → Result σ ε) : Prop where
  chunks : ∀ s chunks, feed parse s [] chunks = parse s chunks.flatten
  items : ∀ {s src n s' e}, parse s src = some (n, s', e) →
    P.Items s src n s' ∧ P.Stops s' (src.drop n) e

theorem whole : P.Whole P.parse where
  chunks _ chunks := P.feed_eq chunks rfl
  items h := P.items_of_parse h

end Parser

end Incremental
