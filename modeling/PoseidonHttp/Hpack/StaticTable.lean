import PoseidonHttp.Header

/-!
# The HPACK static table

The 61 rows of RFC 7541 Appendix A, numbered from 1, and the lookup of
`static_table.go`: a map from names, built once row by row, then a scan of the
values that share the name.
-/

namespace Hpack

open Header (Bytes ascii)

/-- The rows; row 0 is unused. -/
def staticTable : List (Bytes × Bytes) :=
  [("", ""), (":authority", ""), (":method", "GET"), (":method", "POST"), (":path", "/"),
   (":path", "/index.html"), (":scheme", "http"), (":scheme", "https"), (":status", "200"),
   (":status", "204"), (":status", "206"), (":status", "304"), (":status", "400"),
   (":status", "404"), (":status", "500"), ("accept-charset", ""),
   ("accept-encoding", "gzip, deflate"), ("accept-language", ""), ("accept-ranges", ""),
   ("accept", ""), ("access-control-allow-origin", ""), ("age", ""), ("allow", ""),
   ("authorization", ""), ("cache-control", ""), ("content-disposition", ""),
   ("content-encoding", ""), ("content-language", ""), ("content-length", ""),
   ("content-location", ""), ("content-range", ""), ("content-type", ""), ("cookie", ""),
   ("date", ""), ("etag", ""), ("expect", ""), ("expires", ""), ("from", ""), ("host", ""),
   ("if-match", ""), ("if-modified-since", ""), ("if-none-match", ""), ("if-range", ""),
   ("if-unmodified-since", ""), ("last-modified", ""), ("link", ""), ("location", ""),
   ("max-forwards", ""), ("proxy-authenticate", ""), ("proxy-authorization", ""), ("range", ""),
   ("referer", ""), ("refresh", ""), ("retry-after", ""), ("server", ""), ("set-cookie", ""),
   ("strict-transport-security", ""), ("transfer-encoding", ""), ("user-agent", ""), ("vary", ""),
   ("via", ""), ("www-authenticate", "")].map fun (name, value) =>
    (ascii name, ascii value)

def staticTableLen : ℕ := 61

/-- A row of the table. -/
def staticRow (i : ℕ) : Bytes × Bytes := staticTable.getD i ([], [])

/-- The rows that share one name. -/
structure StaticNameEntry where
  first : ℕ
  vals : List (Bytes × ℕ)

/-- One turn of the loop that builds `staticByName`. -/
def addStaticRow (m : Bytes → Option StaticNameEntry) (i : ℕ) : Bytes → Option StaticNameEntry :=
  fun key =>
    if key = (staticRow i).1 then
      match m key with
      | none => some ⟨i, [((staticRow i).2, i)]⟩
      | some ent => some ⟨ent.first, ent.vals ++ [((staticRow i).2, i)]⟩
    else m key

/-- The static table by field name. -/
def staticByName : Bytes → Option StaticNameEntry :=
  (List.range' 1 staticTableLen).foldl addStaticRow fun _ => none

/-- The index of a row with this name, 0 for none, and whether its value matches
too. -/
def staticIndex (name value : Bytes) : ℕ × Bool :=
  match staticByName name with
  | none => (0, false)
  | some ent =>
    match ent.vals.find? (·.1 == value) with
    | some v => (v.2, true)
    | none => (ent.first, false)

/-- The entry kept for a name points at rows with that name. -/
structure StaticNameEntry.Valid (name : Bytes) (ent : StaticNameEntry) : Prop where
  first_range : 1 ≤ ent.first ∧ ent.first ≤ staticTableLen
  first_name : (staticRow ent.first).1 = name
  vals : ∀ v ∈ ent.vals, (1 ≤ v.2 ∧ v.2 ≤ staticTableLen) ∧ staticRow v.2 = (name, v.1)

theorem addStaticRow_valid {m : Bytes → Option StaticNameEntry} {i : ℕ}
    (hi : 1 ≤ i ∧ i ≤ staticTableLen) (hm : ∀ k ent, m k = some ent → ent.Valid k) :
    ∀ k ent, addStaticRow m i k = some ent → ent.Valid k := by
  intro k ent h
  unfold addStaticRow at h
  split_ifs at h with hk
  · have hrow : staticRow i = (k, (staticRow i).2) := by rw [hk]
    cases hmk : m k with
    | none =>
      rw [hmk] at h
      cases h
      refine ⟨hi, hk.symm, ?_⟩
      rintro v (_ | ⟨_, hv⟩)
      · exact ⟨hi, hrow⟩
      · cases hv
    | some ent' =>
      have hv' := hm k ent' hmk
      rw [hmk] at h
      cases h
      refine ⟨hv'.first_range, hv'.first_name, List.forall_mem_append.mpr ⟨hv'.vals, ?_⟩⟩
      exact List.forall_mem_singleton.mpr ⟨hi, hrow⟩
  · exact hm k ent h

theorem staticByName_valid {k : Bytes} {ent : StaticNameEntry} (h : staticByName k = some ent) :
    ent.Valid k := by
  suffices hall : ∀ l : List ℕ, (∀ i ∈ l, 1 ≤ i ∧ i ≤ staticTableLen) →
      ∀ m : Bytes → Option StaticNameEntry, (∀ k ent, m k = some ent → ent.Valid k) →
      ∀ k ent, l.foldl addStaticRow m k = some ent → ent.Valid k by
    refine hall _ (fun i hi => ?_) _ (by simp) k ent h
    have := List.mem_range'_1.mp hi
    omega
  intro l
  induction l with
  | nil => exact fun _ m hm => hm
  | cons i l ih =>
    intro hl m hm
    exact ih (fun j hj => hl j (by simp [hj])) _ (addStaticRow_valid (hl i (by simp)) hm)

/-- An index that was found names a row with that name, and with that value when it
is a full match. -/
theorem staticIndex_row {name value : Bytes} {idx : ℕ} {full : Bool}
    (h : staticIndex name value = (idx, full)) (hfound : full = true ∨ idx ≠ 0) :
    (1 ≤ idx ∧ idx ≤ staticTableLen) ∧ (staticRow idx).1 = name ∧
      (full = true → (staticRow idx).2 = value) := by
  unfold staticIndex at h
  cases hb : staticByName name with
  | none =>
    simp only [hb, Prod.mk.injEq] at h
    obtain ⟨rfl, rfl⟩ := h
    simp at hfound
  | some ent =>
    have hval := staticByName_valid hb
    simp only [hb] at h
    cases hf : ent.vals.find? (·.1 == value) with
    | some v =>
      simp only [hf, Prod.mk.injEq] at h
      obtain ⟨rfl, -⟩ := h
      obtain ⟨hr, hrow⟩ := hval.vals v (List.mem_of_find?_eq_some hf)
      rw [hrow]
      exact ⟨hr, rfl, fun _ => by simpa using List.find?_some hf⟩
    | none =>
      simp only [hf, Prod.mk.injEq] at h
      obtain ⟨rfl, rfl⟩ := h
      exact ⟨hval.first_range, hval.first_name, fun h => by cases h⟩

end Hpack
