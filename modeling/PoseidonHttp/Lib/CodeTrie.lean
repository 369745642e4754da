import Mathlib.Data.List.Infix

/-!
# Prefix codes and their tries

A code gives each symbol a nonempty bit string, none a prefix of another's. The
trie of a code is built by inserting the strings one by one; every node knows its
depth and whether the path to it is all ones. `walk` reads bits from a node,
emits a symbol at each leaf and goes on from the root.

`walk_eq_some_iff` is the specification of the reader: from the node at `p` it
reads exactly the strings that, after `p`, are the codes of the emitted symbols
followed by the path of the node it stops at.
-/

namespace CodeTrie

/-- A binary trie; `sym` is set at the nodes that end a code. -/
inductive Trie (α : Type*) where
  | nil
  | node (sym : Option α) (depth : ℕ) (allOnes : Bool) (left right : Trie α)

variable {α : Type*}

/-- The node a bit leads to. -/
def Trie.child : Trie α → Bool → Trie α
  | .nil, _ => .nil
  | .node _ _ _ l r, b => if b then r else l

/-- The symbol whose code ends here. -/
def Trie.sym : Trie α → Option α
  | .nil => none
  | .node s _ _ _ _ => s

def Trie.isNode : Trie α → Bool
  | .nil => false
  | .node _ _ _ _ _ => true

/-- The node at the end of a path. -/
def Trie.find (t : Trie α) (p : List Bool) : Trie α := p.foldl Trie.child t

/-- A missing node is created with its depth and path label. -/
def Trie.orNew (t : Trie α) (depth : ℕ) (allOnes : Bool) : Trie α :=
  match t with
  | .nil => .node none depth allOnes .nil .nil
  | t => t

/-- Set the symbol at the end of a path, creating the nodes on it. -/
def Trie.insert (s : α) : List Bool → Trie α → Trie α
  | _, .nil => .nil
  | [], .node _ d a l r => .node (some s) d a l r
  | true :: p, .node y d a l r => .node y d a l (Trie.insert s p (r.orNew (d + 1) a))
  | false :: p, .node y d a l r => .node y d a (Trie.insert s p (l.orNew (d + 1) false)) r

/-- The trie without any code. -/
def Trie.root : Trie α := .node none 0 true .nil .nil

/-- The trie of the codes of `syms`. -/
def Trie.ofCode (code : α → List Bool) (syms : List α) : Trie α :=
  syms.foldl (fun t s => t.insert s (code s)) .root

open Trie (ofCode isNode child sym orNew)

/-! ## Paths -/

@[simp] theorem find_nil_path (t : Trie α) : t.find [] = t := rfl

@[simp] theorem find_cons (t : Trie α) (b : Bool) (p : List Bool) :
    t.find (b :: p) = (t.child b).find p := rfl

theorem find_concat (t : Trie α) (p : List Bool) (b : Bool) :
    t.find (p ++ [b]) = (t.find p).child b := by
  simp [Trie.find]

@[simp] theorem find_nil (p : List Bool) : (Trie.nil : Trie α).find p = .nil := by
  induction p with
  | nil => rfl
  | cons b p ih => simpa [child] using ih

@[simp] theorem isNode_orNew (t : Trie α) (d : ℕ) (a : Bool) : (t.orNew d a).isNode = true := by
  cases t <;> rfl

/-- A node that is created has no symbol, and nothing below it. -/
theorem find_orNew (t : Trie α) (d : ℕ) (a : Bool) (q : List Bool) :
    ((t.orNew d a).find q).sym = (t.find q).sym ∧
      (((t.orNew d a).find q).isNode = true ↔ (t.find q).isNode = true ∨ q = []) := by
  cases t with
  | node => cases q <;> simp [orNew, isNode]
  | nil =>
    cases q with
    | nil => simp [orNew, isNode, sym]
    | cons b q => cases b <;> simp [orNew, child, isNode]

theorem find_insert (s : α) (p q : List Bool) :
    ∀ {t : Trie α}, t.isNode = true →
      ((t.insert s p).find q).sym = (if q = p then some s else (t.find q).sym) ∧
        (((t.insert s p).find q).isNode = true ↔ (t.find q).isNode = true ∨ q <+: p) := by
  induction p generalizing q with
  | nil =>
    intro t ht
    cases t with
    | nil => simp [isNode] at ht
    | node => cases q <;> simp [Trie.insert, isNode, sym, child]
  | cons b p ih =>
    intro t ht
    cases t with
    | nil => simp [isNode] at ht
    | node y d a l r =>
      cases q with
      | nil => cases b <;> simp [Trie.insert, isNode, sym]
      | cons c q =>
        -- on the path of the new code a node is there or is created; off it nothing changes
        have hnil : q = [] ∨ q <+: p ↔ q <+: p :=
          ⟨fun h => h.elim (fun h => h ▸ List.nil_prefix) id, .inr⟩
        cases b <;> cases c <;>
          simp [Trie.insert, child, ih, find_orNew, List.cons_prefix_cons, or_assoc, hnil]

/-! ## Labels -/

/-- Depths and path labels are right from this node on. -/
def Trie.Labelled : ℕ → Bool → Trie α → Prop
  | _, _, .nil => True
  | d, a, .node _ d' a' l r => d' = d ∧ a' = a ∧ l.Labelled (d + 1) false ∧ r.Labelled (d + 1) a

theorem labelled_orNew {t : Trie α} {d : ℕ} {a : Bool} (h : t.Labelled d a) :
    (t.orNew d a).Labelled d a := by
  cases t with
  | nil => simp [orNew, Trie.Labelled]
  | node => exact h

theorem labelled_insert (s : α) (p : List Bool) :
    ∀ {t : Trie α} {d : ℕ} {a : Bool}, t.Labelled d a → (t.insert s p).Labelled d a := by
  induction p with
  | nil =>
    intro t d a h
    cases t <;> exact h
  | cons b p ih =>
    intro t d a h
    cases t with
    | nil => exact h
    | node y d' a' l r =>
      obtain ⟨rfl, rfl, hl, hr⟩ := h
      cases b with
      | true => exact ⟨rfl, rfl, hl, ih (labelled_orNew hr)⟩
      | false => exact ⟨rfl, rfl, ih (labelled_orNew hl), hr⟩

/-- The labels of a node are the length of its path and whether that is all ones. -/
theorem Trie.Labelled.find (p : List Bool) :
    ∀ {t : Trie α} {d : ℕ} {a : Bool}, t.Labelled d a →
      (t.find p).Labelled (d + p.length) (a && p.all id) := by
  induction p with
  | nil => intro t d a h; simpa using h
  | cons b p ih =>
    intro t d a h
    cases t with
    | nil => simp [child, Trie.Labelled]
    | node y d' a' l r =>
      obtain ⟨rfl, rfl, hl, hr⟩ := h
      cases b with
      | true =>
        have := ih hr
        simpa [child, Nat.add_assoc, Nat.add_comm 1] using this
      | false =>
        have := ih hl
        simpa [child, Nat.add_assoc, Nat.add_comm 1] using this

/-! ## The trie of a code -/

/-- No symbol's code is a prefix of another's. -/
structure PrefixCode (code : α → List Bool) (syms : List α) : Prop where
  code_ne_nil : ∀ s ∈ syms, code s ≠ []
  prefix_free : ∀ s ∈ syms, ∀ t ∈ syms, code s <+: code t → s = t

/-- A path that more bits are needed on: the root, or inside some code. -/
def Inner (code : α → List Bool) (syms : List α) (p : List Bool) : Prop :=
  p = [] ∨ ∃ s ∈ syms, p <+: code s ∧ p ≠ code s

variable {code : α → List Bool} {syms : List α}

/-- The trie holds the codes of `l`. -/
structure Trie.Holds (code : α → List Bool) (l : List α) (t : Trie α) : Prop where
  labelled : t.Labelled 0 true
  isNode : ∀ p, (t.find p).isNode = true ↔ p = [] ∨ ∃ s ∈ l, p <+: code s
  sym : ∀ p s, (t.find p).sym = some s ↔ s ∈ l ∧ code s = p

theorem holds_root : (Trie.root : Trie α).Holds code [] := by
  refine ⟨by simp [Trie.root, Trie.Labelled], ?_, ?_⟩
  · rintro (_ | ⟨_ | _, p⟩) <;> simp [Trie.root, child, isNode]
  · rintro (_ | ⟨_ | _, p⟩) s <;> simp [Trie.root, child, sym]

theorem Trie.Holds.insert {l : List α} {t : Trie α} {u : α} (h : t.Holds code l)
    (huniq : ∀ s ∈ l, code s = code u → s = u) : (t.insert u (code u)).Holds code (l ++ [u]) := by
  have hroot : t.isNode = true := (h.isNode []).mpr (.inl rfl)
  refine ⟨labelled_insert u _ h.labelled, ?_, ?_⟩
  · intro p
    rw [(find_insert u (code u) p hroot).2, h.isNode]
    simp [or_assoc, or_and_right, exists_or]
  intro p s
  rw [(find_insert u (code u) p hroot).1, List.mem_append, List.mem_singleton]
  split_ifs with hp
  · -- the new code ends here: another symbol with the same code would be the same symbol
    subst hp
    constructor
    · intro hs
      obtain rfl := Option.some.inj hs
      exact ⟨.inr rfl, rfl⟩
    · rintro ⟨hs | rfl, hcode⟩
      · rw [huniq s hs hcode]
      · rfl
  · rw [h.sym]
    constructor
    · exact fun ⟨hs, hcode⟩ => ⟨.inl hs, hcode⟩
    · rintro ⟨hs | rfl, hcode⟩
      · exact ⟨hs, hcode⟩
      · exact absurd hcode.symm hp

theorem holds_ofCode (hc : PrefixCode code syms) : (ofCode code syms).Holds code syms := by
  suffices h : ∀ l, l ⊆ syms → (ofCode code l).Holds code l from h syms (List.Subset.refl _)
  intro l
  induction l using List.reverseRecOn with
  | nil => exact fun _ => holds_root
  | append_singleton l u ih =>
    intro hl
    rw [List.append_subset, List.cons_subset] at hl
    rw [ofCode, List.foldl_append]
    refine (ih hl.1).insert ?_
    intro s hs hcode
    exact hc.prefix_free s (hl.1 hs) u hl.2.1 (hcode ▸ List.prefix_refl _)

/-- Inside a code no code ends. -/
theorem not_code_prefix_of_inner (hc : PrefixCode code syms) {p : List Bool}
    (hp : Inner code syms p) {s : α} (hs : s ∈ syms) : ¬ code s <+: p := by
  intro hpre
  rcases hp with rfl | ⟨t, ht, hpt, hne⟩
  · exact hc.code_ne_nil s hs (List.prefix_nil.mp hpre)
  · have hst := hc.prefix_free s hs t ht (hpre.trans hpt)
    subst hst
    exact hne (hpt.eq_of_length_le hpre.length_le)

theorem inner_iff (hc : PrefixCode code syms) (p : List Bool) :
    Inner code syms p ↔ ((ofCode code syms).find p).isNode = true ∧
      ((ofCode code syms).find p).sym = none := by
  have hsym : ((ofCode code syms).find p).sym = none ↔ ∀ s ∈ syms, code s ≠ p := by
    rw [Option.eq_none_iff_forall_not_mem]
    simp only [Option.mem_def, (holds_ofCode hc).sym, not_and, ne_eq]
  rw [hsym, (holds_ofCode hc).isNode]
  constructor
  · intro hp
    refine ⟨?_, fun s hs he => not_code_prefix_of_inner hc hp hs (he ▸ List.prefix_refl _)⟩
    exact hp.imp id fun ⟨s, hs, hpre, _⟩ => ⟨s, hs, hpre⟩
  · rintro ⟨rfl | ⟨s, hs, hpre⟩, hall⟩
    · exact .inl rfl
    · exact .inr ⟨s, hs, hpre, fun he => hall s hs he.symm⟩

/-- The node at a path inside a code. -/
theorem find_of_inner (hc : PrefixCode code syms) {p : List Bool} (hp : Inner code syms p) :
    ∃ l r, (ofCode code syms).find p = .node none p.length (p.all id) l r := by
  obtain ⟨hnode, hsym⟩ := (inner_iff hc p).mp hp
  have hlab := (holds_ofCode hc).labelled.find p
  cases hf : (ofCode code syms).find p with
  | nil => simp [hf, isNode] at hnode
  | node y d a l r =>
    rw [hf] at hlab hsym
    obtain ⟨rfl, rfl, -⟩ := hlab
    obtain rfl : y = none := hsym
    exact ⟨l, r, by simp⟩

/-! ## Reading -/

/-- Read bits from node `n`. A symbol that is not `ok`, or a missing node, stops
the reading. -/
def walk (root : Trie α) (ok : α → Bool) : Trie α → List Bool → Option (List α × Trie α)
  | n, [] => some ([], n)
  | n, b :: bs =>
    match n.child b with
    | .nil => none
    | .node (some s) _ _ _ _ =>
      if ok s then (walk root ok root bs).map fun r => (s :: r.1, r.2) else none
    | .node none d a l r => walk root ok (.node none d a l r) bs

theorem walk_append (root : Trie α) (ok : α → Bool) (bs bs' : List Bool) :
    ∀ n, walk root ok n (bs ++ bs') =
      (walk root ok n bs).bind fun r => (walk root ok r.2 bs').map fun r' => (r.1 ++ r'.1, r'.2) := by
  induction bs with
  | nil => intro n; simp [walk]
  | cons b bs ih =>
    intro n
    simp only [List.cons_append, walk]
    split
    · rfl
    · split
      · rw [ih]
        cases walk root ok root bs <;> simp [Function.comp_def]
      · rfl
    · exact ih _

/-- Where the next bit of a string of codes leads: it ends the first code, or
stays inside one. -/
theorem next_bit (hc : PrefixCode code syms) {p : List Bool} (hp : Inner code syms p)
    {b : Bool} {bs q : List Bool} {ss : List α} (hss : ∀ s ∈ ss, s ∈ syms)
    (hq : Inner code syms q) (h : p ++ b :: bs = ss.flatMap code ++ q) :
    (∃ s ss', ss = s :: ss' ∧ code s = p ++ [b] ∧ bs = ss'.flatMap code ++ q) ∨
      Inner code syms (p ++ [b]) := by
  cases ss with
  | nil =>
    have hpre : p ++ [b] <+: q := ⟨bs, by simpa using h⟩
    rcases hq with rfl | ⟨t, ht, hqt, hne⟩
    · simp at hpre
    · refine .inr (.inr ⟨t, ht, hpre.trans hqt, fun he => hne ?_⟩)
      exact hqt.eq_of_length_le (he ▸ hpre.length_le)
  | cons s ss =>
    have hs := hss s (by simp)
    have h' : (p ++ [b]) ++ bs = code s ++ (ss.flatMap code ++ q) := by simpa using h
    by_cases hend : code s = p ++ [b]
    · rw [hend] at h'
      exact .inl ⟨s, ss, rfl, hend, List.append_cancel_left h'⟩
    · rcases List.append_eq_append_iff.mp h' with ⟨x, hx, -⟩ | ⟨x, hx, -⟩
      · exact .inr (.inr ⟨s, hs, ⟨x, hx.symm⟩, fun he => hend he.symm⟩)
      · -- the code would end before the bit, inside another code
        rcases List.prefix_concat_iff.mp ⟨x, hx.symm⟩ with he | hpre
        · exact absurd he hend
        · exact absurd hpre (not_code_prefix_of_inner hc hp hs)

/-- The reader reads exactly the strings of codes. -/
theorem walk_eq_some_iff (hc : PrefixCode code syms) {ok : α → Bool} (bits : List Bool) :
    ∀ {p : List Bool} {ss : List α} {n : Trie α}, Inner code syms p →
      (walk (ofCode code syms) ok ((ofCode code syms).find p) bits = some (ss, n) ↔
        ∃ q, Inner code syms q ∧ n = (ofCode code syms).find q ∧
          p ++ bits = ss.flatMap code ++ q ∧ ∀ s ∈ ss, s ∈ syms ∧ ok s = true) := by
  induction bits with
  | nil =>
    intro p ss n hp
    simp only [walk, Option.some.injEq, Prod.mk.injEq, List.append_nil]
    constructor
    · rintro ⟨rfl, rfl⟩
      exact ⟨p, hp, rfl, by simp, by simp⟩
    · rintro ⟨q, hq, rfl, he, hss⟩
      cases ss with
      | nil => exact ⟨rfl, by simp [he]⟩
      | cons s ss =>
        refine absurd ?_ (not_code_prefix_of_inner hc hp (hss s (by simp)).1)
        exact ⟨ss.flatMap code ++ q, by simp [he]⟩
  | cons b bs ih =>
    intro p ss n hp
    have hchild := (find_concat (ofCode code syms) p b).symm
    have hnode := inner_iff hc (p ++ [b])
    have hsym := (holds_ofCode hc).sym (p ++ [b])
    simp only [walk, hchild]
    cases hf : (ofCode code syms).find (p ++ [b]) with
    | nil =>
      -- no code goes on this way
      simp only [hf, isNode, sym, reduceCtorEq, false_iff, Bool.false_eq_true,
        false_and, iff_false] at hnode hsym ⊢
      rintro ⟨q, hq, -, he, hss⟩
      rcases next_bit hc hp (fun s hs => (hss s hs).1) hq he with ⟨s, ss', rfl, hcode, -⟩ | hin
      · exact hsym s ⟨(hss s (by simp)).1, hcode⟩
      · exact hnode hin
    | node y d a l r =>
      cases y with
      | some s =>
        -- the code of `s` ends here, the rest is read from the root
        simp only [hf, isNode, sym, reduceCtorEq, and_false, iff_false,
          Option.some.injEq] at hnode hsym ⊢
        obtain ⟨hs, hcode⟩ := (hsym s).mp rfl
        constructor
        · intro h
          split_ifs at h with hok
          obtain ⟨⟨ss', n'⟩, hw, he⟩ := Option.map_eq_some_iff.mp h
          obtain ⟨rfl, rfl⟩ := he
          obtain ⟨q, hq, hn, hbs, hss⟩ := (@ih [] ss' n' (.inl rfl)).mp hw
          refine ⟨q, hq, hn, ?_, ?_⟩
          · rw [List.nil_append] at hbs
            simp [hbs, hcode]
          · rintro u (_ | ⟨_, hu⟩)
            · exact ⟨hs, hok⟩
            · exact hss u hu
        · rintro ⟨q, hq, hn, he, hss⟩
          rcases next_bit hc hp (fun s hs => (hss s hs).1) hq he with ⟨u, ss', rfl, hcu, hbs⟩ | hin
          · have hus : u = s := hc.prefix_free u (hss u (by simp)).1 s hs (by rw [hcu, hcode])
            subst hus
            rw [if_pos (hss u (by simp)).2]
            have hw := (@ih [] ss' n (.inl rfl)).mpr
              ⟨q, hq, hn, by simpa using hbs, fun v hv => hss v (by simp [hv])⟩
            rw [find_nil_path] at hw
            simp [hw]
          · exact absurd hin hnode
      | none =>
        have hin : Inner code syms (p ++ [b]) := hnode.mpr (by simp [hf, isNode, sym])
        have := @ih (p ++ [b]) ss n hin
        rw [hf] at this
        simp only [this, List.append_assoc, List.singleton_append]

end CodeTrie
