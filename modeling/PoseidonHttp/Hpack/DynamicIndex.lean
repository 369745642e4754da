import PoseidonHttp.Header

/-!
# The hashed index of the dynamic table

`dynamic_index.go`: two maps from hashes to the id of the newest entry with that
hash. Ids count insertions, so the `i`-th newest of the live entries (from 0) has
id `newest - i`. The hash function stands for the random seed; nothing is assumed
of it.

`Indexes x l` says what the maps hold when the live entries are `l`, newest first.
It survives an insertion at the front, the removal of the oldest entry, and a
clear.
-/

namespace Hpack

open Header (Bytes)

/-- The index. Maps that are not allocated yet read as empty. -/
structure DynamicTableIndex where
  hash : Bytes → UInt64
  newest : ℕ
  byName : UInt64 → Option ℕ
  byNameValue : UInt64 × UInt64 → Option ℕ

namespace DynamicTableIndex

/-- `newDynamicTableIndex`. -/
def new (hash : Bytes → UInt64) : DynamicTableIndex := ⟨hash, 0, fun _ => none, fun _ => none⟩

def hashes (x : DynamicTableIndex) (name value : Bytes) : UInt64 × UInt64 :=
  (x.hash name, x.hash value)

def add (x : DynamicTableIndex) (name value : Bytes) : DynamicTableIndex :=
  let newest := x.newest + 1
  let key := x.hashes name value
  { x with
    newest := newest
    byName := Function.update x.byName key.1 (some newest)
    byNameValue := Function.update x.byNameValue key (some newest) }

/-- Forget the oldest of `count` entries, where the maps still point at it. -/
def remove (x : DynamicTableIndex) (name value : Bytes) (count : ℕ) : DynamicTableIndex :=
  let id := x.newest - count + 1
  let key := x.hashes name value
  { x with
    byName := if x.byName key.1 = some id then Function.update x.byName key.1 none else x.byName
    byNameValue :=
      if x.byNameValue key = some id then Function.update x.byNameValue key none
      else x.byNameValue }

def clear (x : DynamicTableIndex) : DynamicTableIndex :=
  { x with newest := 0, byName := fun _ => none, byNameValue := fun _ => none }

/-- The id of the newest entry of `l` whose key is `k`. -/
def newestId {κ : Type*} [DecidableEq κ] (key : Bytes × Bytes → κ) (newest : ℕ)
    (l : List (Bytes × Bytes)) (k : κ) : Option ℕ :=
  (l.findIdx? fun e => decide (key e = k)).map (newest - ·)

/-- The maps hold, for each hash, the newest live entry with that hash. -/
structure Indexes (x : DynamicTableIndex) (l : List (Bytes × Bytes)) : Prop where
  newest : l.length ≤ x.newest
  byName : ∀ h, x.byName h = newestId (fun e => x.hash e.1) x.newest l h
  byNameValue : ∀ k, x.byNameValue k = newestId (fun e => x.hashes e.1 e.2) x.newest l k

theorem indexes_new (hash : Bytes → UInt64) : (new hash).Indexes [] :=
  ⟨le_rfl, fun _ => rfl, fun _ => rfl⟩

variable {x : DynamicTableIndex} {l : List (Bytes × Bytes)}

theorem Indexes.clear : x.clear.Indexes [] :=
  ⟨Nat.zero_le _, fun _ => rfl, fun _ => rfl⟩

/-- A new entry is the newest with its own key and changes no other key. -/
theorem newestId_cons {κ : Type*} [DecidableEq κ] (key : Bytes × Bytes → κ) {newest : ℕ}
    {m : κ → Option ℕ} (e : Bytes × Bytes) (hm : ∀ k, m k = newestId key newest l k) (k : κ) :
    Function.update m (key e) (some (newest + 1)) k =
      newestId key (newest + 1) (e :: l) k := by
  by_cases hk : key e = k
  · subst hk
    simp [newestId, List.findIdx?_cons]
  · rw [Function.update_of_ne (Ne.symm hk), hm]
    simp [newestId, List.findIdx?_cons, hk, Function.comp_def]

theorem Indexes.add (h : x.Indexes l) (name value : Bytes) :
    (x.add name value).Indexes ((name, value) :: l) :=
  ⟨Nat.succ_le_succ h.newest,
    newestId_cons (fun e => x.hash e.1) (name, value) h.byName,
    newestId_cons (fun e => x.hashes e.1 e.2) (name, value) h.byNameValue⟩

/-- Dropping the oldest entry takes its key out of the map only where no newer
entry has that key. -/
theorem newestId_concat {κ : Type*} [DecidableEq κ] (key : Bytes × Bytes → κ) {newest : ℕ}
    {m : κ → Option ℕ} {e : Bytes × Bytes} (hn : l.length < newest)
    (hm : ∀ k, m k = newestId key newest (l ++ [e]) k) (k : κ) :
    (if m (key e) = some (newest - l.length) then Function.update m (key e) none else m) k =
      newestId key newest l k := by
  have happ : ∀ k, m k = (l.findIdx? fun e' => decide (key e' = k)).elim
      (if key e = k then some (newest - l.length) else none) (fun i => some (newest - i)) := by
    intro k
    rw [hm, newestId, List.findIdx?_append]
    cases l.findIdx? fun e => decide (key e = k) with
    | some i => simp
    | none => by_cases hk : key e = k <;> simp [List.findIdx?_cons, hk]
  have hlt : ∀ {k i}, (l.findIdx? fun e => decide (key e = k)) = some i → newest - i ≠ newest - l.length := by
    intro k i hi
    have := (List.findIdx?_eq_some_iff_findIdx_eq.mp hi).1
    omega
  cases hf : l.findIdx? fun e' => decide (key e' = key e) with
  | some i =>
    -- a newer entry with the same key keeps the map as it is
    have hme : m (key e) = some (newest - i) := by
      rw [happ, hf]
      rfl
    rw [hme, if_neg (by simpa using hlt hf), happ, newestId]
    cases hk : l.findIdx? fun e => decide (key e = k) with
    | some j => rfl
    | none =>
      have : key e ≠ k := by
        rintro rfl
        simp [hf] at hk
      simp [this]
  | none =>
    have hme : m (key e) = some (newest - l.length) := by
      rw [happ, hf]
      simp
    rw [if_pos hme, newestId]
    by_cases hk : key e = k
    · subst hk
      simp [hf]
    · rw [Function.update_of_ne (Ne.symm hk), happ]
      cases (l.findIdx? fun e => decide (key e = k)) <;> simp [hk]

theorem Indexes.remove {e : Bytes × Bytes} (h : x.Indexes (l ++ [e])) :
    (x.remove e.1 e.2 (l.length + 1)).Indexes l := by
  have hlen : l.length < x.newest := by simpa [Nat.succ_le_iff] using h.newest
  have hid : x.newest - (l.length + 1) + 1 = x.newest - l.length := by omega
  refine ⟨hlen.le, fun k => ?_, fun k => ?_⟩
  · have := newestId_concat (fun e => x.hash e.1) hlen h.byName k
    rwa [← hid] at this
  · have := newestId_concat (fun e => x.hashes e.1 e.2) hlen h.byNameValue k
    rwa [← hid] at this

end DynamicTableIndex

end Hpack
