import PoseidonHttp.Hpack.Decoder

/-!
# Decoding a block in fragments

`Begin`, `Feed` and `Finish` of `decoder.go`: a session keeps the bytes of a
representation that is not complete yet. `Configured` says what no decode touches, whatever
the bytes and whatever the visitor does: the limits the caller set, and whether the table
has an index.
-/

namespace Hpack

open Header (Bytes Field)

/-- The hash function of the index, if there is one. -/
def DynamicTable.hash (d : DynamicTable) : Option (Bytes → UInt64) := d.index.map (·.hash)

/-- A decoder with its streaming state. -/
structure Session where
  dec : Decoder
  streaming : Bool
  pending : Bytes

/-- The results of the streaming calls besides the errors of a decode. -/
inductive SessionFault (E : Type*) where
  | notStreaming
  | truncated
  | decode (e : Fault E)

namespace Session

variable {σ E : Type*}

/-- `NewDecoder`. -/
def new : Session := ⟨.new, false, []⟩

def decodeBlock (visit : Visitor σ E) (s : Session) (v : σ) (block : Bytes) :
    (Session × σ) × Option (Fault E) :=
  let ((dec, v), fault) := Decoder.decodeBlock visit s.dec v block
  (({ s with dec }, v), fault)

def begin (s : Session) : Session :=
  ⟨{ s.dec with listTotal := 0 }, true, []⟩

/-- The loop of `decodePartial`: what is left of the bytes, and the error that is not a
truncation. Every turn consumes a byte, so `fuel` starts at their number. -/
def decodePartialFrom (visit : Visitor σ E) :
    ℕ → Decoder × σ → Bytes → (Decoder × σ) × Bytes × Option (Fault E)
  | 0, s, src => (s, src, none)
  | _ + 1, s, [] => (s, [], none)
  | fuel + 1, s, src =>
    match Decoder.decodeOne visit s src with
    | (s, .error (.err .truncated)) => (s, src, none)
    | (s, .error e) => (s, src, some e)
    | (s, .ok n) => decodePartialFrom visit fuel s (src.drop n)

/-- Bytes that were consumed before an error stay in the buffer. -/
def feed (visit : Visitor σ E) (s : Session) (v : σ) (fragment : Bytes) :
    (Session × σ) × Option (SessionFault E) :=
  if s.streaming then
    let pending := s.pending ++ fragment
    match decodePartialFrom visit pending.length (s.dec, v) pending with
    | ((dec, v), _, some e) => (({ s with dec, pending }, v), some (.decode e))
    | ((dec, v), rest, none) => (({ s with dec, pending := rest }, v), none)
  else ((s, v), some .notStreaming)

def finish (s : Session) : Session × Option (SessionFault E) :=
  if s.streaming then
    ({ s with streaming := false, pending := [] },
      if s.pending = [] then none else some .truncated)
  else (s, some .notStreaming)

/-- `Reset`. -/
def reset (s : Session) : Session :=
  ⟨{ s.dec with dt := s.dec.dt.clear, listTotal := 0 }, false, []⟩

end Session

/-! ## What a decode leaves alone -/

namespace DynamicTable

variable {d d' : DynamicTable}

@[simp] theorem hash_clear (d : DynamicTable) : d.clear.hash = d.hash := by
  unfold hash clear
  cases d.index <;> rfl

theorem hash_evictOldest (h : d.evictOldest = some d') : d'.hash = d.hash := by
  unfold evictOldest at h
  split_ifs at h
  · rw [Option.some.inj h]
  simp only [bind, Option.bind_eq_some_iff, pure, Option.some.injEq] at h
  rcases h with ⟨e, _, index, hindex, rfl⟩
  unfold unindexOldest at hindex
  split at hindex
  · rename_i hx
    rw [← Option.some.inj hindex] 
    simp [hash, hx]
  · rename_i hx
    simp only [Option.map_eq_some_iff] at hindex
    rcases hindex with ⟨e', _, rfl⟩
    simp [hash, hx, DynamicTableIndex.remove]

theorem hash_setMaxSize {n : ℕ} (h : d.setMaxSize n = some d') : d'.hash = d.hash := by
  have hevict := evictFor_keeps hash_evictOldest h
  exact hevict

theorem hash_add {name value : Bytes} (h : d.add name value = some d') : d'.hash = d.hash := by
  unfold add at h
  dsimp only at h
  split_ifs at h
  · rw [← Option.some.inj h, hash_clear]
  simp only [bind, Option.bind_eq_some_iff] at h
  rcases h with ⟨d₁, hd₁, hrest⟩
  rw [← evictFor_keeps hash_evictOldest hd₁]
  -- the new entry, and the arena compacted or not
  have hindex : (d₁.index.map (·.add name value)).map (·.hash) = d₁.hash := by
    unfold hash
    cases d₁.index <;> rfl
  split_ifs at hrest
  · simp only [compactArena, Option.map_eq_some_iff] at hrest
    rcases hrest with ⟨store, _, rfl⟩
    exact hindex
  · rw [← Option.some.inj hrest]
    exact hindex

end DynamicTable

namespace Decoder

variable {σ E : Type*} (visit : Visitor σ E)

/-- What the caller set up is the same. -/
structure Configured (d d' : Decoder) : Prop where
  maxLocal : d'.maxLocal = d.maxLocal
  maxListSize : d'.maxListSize = d.maxListSize
  hash : d'.dt.hash = d.dt.hash

theorem Configured.refl (d : Decoder) : Configured d d := ⟨rfl, rfl, rfl⟩

theorem Configured.trans {d d' d'' : Decoder} (h : Configured d d') (h' : Configured d' d'') :
    Configured d d'' :=
  ⟨h'.maxLocal.trans h.maxLocal, h'.maxListSize.trans h.maxListSize, h'.hash.trans h.hash⟩

theorem configured_guardedVisitor (s : Decoder × σ) (f : Field) :
    Configured s.1 (guardedVisitor visit s f).1.1 := by
  unfold guardedVisitor
  dsimp only
  split_ifs <;> exact ⟨rfl, rfl, rfl⟩

theorem configured_visited (s : Decoder × σ) (f : Field) (n : ℕ) :
    Configured s.1 (visited visit s f n).1.1 := by
  have hguard := configured_guardedVisitor visit s f
  unfold visited
  split <;> rename_i heq <;> rw [heq] at hguard <;> exact hguard

/-- One representation, whether or not it succeeds. -/
theorem configured_decodeOne (s : Decoder × σ) (src : Bytes) :
    Configured s.1 (decodeOne visit s src).1.1 := by
  unfold decodeOne
  dsimp only
  split
  · exact .refl _
  split_ifs
  · split
    · exact .refl _
    split
    · exact .refl _
    · exact configured_visited visit ..
  · split
    · exact .refl _
    split
    · exact .refl _
    · rename_i dt hadd
      have hfirst : Configured s.1 { s.1 with dt } := ⟨rfl, rfl, DynamicTable.hash_add hadd⟩
      exact hfirst.trans (configured_visited visit ({ s.1 with dt }, s.2) _ _)
  · split
    · exact .refl _
    split_ifs
    · exact .refl _
    split
    · exact .refl _
    · rename_i hset
      exact ⟨rfl, rfl, DynamicTable.hash_setMaxSize hset⟩
  · split
    · exact .refl _
    · exact configured_visited visit ..
  · split
    · exact .refl _
    · exact configured_visited visit ..
  · exact .refl _

end Decoder

namespace Session

variable {σ E : Type*} (visit : Visitor σ E)

theorem configured_decodePartialFrom (fuel : ℕ) (s : Decoder × σ) (src : Bytes) :
    Decoder.Configured s.1 (decodePartialFrom visit fuel s src).1.1 := by
  induction fuel generalizing s src with
  | zero => exact .refl _
  | succ fuel ih =>
    have hone := Decoder.configured_decodeOne visit s src
    cases src with
    | nil => exact .refl _
    | cons b src =>
      rw [decodePartialFrom]
      · split <;> rename_i heq <;> rw [heq] at hone
        · exact hone
        · exact hone
        · exact hone.trans (ih _ _)
      · simp

/-- A whole block is a fragment that nothing follows. -/
theorem decodeFragmentFrom_eq (fuel : ℕ) (s : Decoder × σ) (src : Bytes) (h : src.length ≤ fuel) :
    Decoder.decodeFragmentFrom visit fuel s src =
      match decodePartialFrom visit fuel s src with
      | (s, _, some e) => (s, some e)
      | (s, rest, none) => (s, if rest = [] then none else some (.err .truncated)) := by
  induction fuel generalizing s src with
  | zero =>
    obtain rfl := List.length_eq_zero_iff.mp (Nat.le_zero.mp h)
    rfl
  | succ fuel ih =>
    cases src with
    | nil => rfl
    | cons b src =>
      rw [Decoder.decodeFragmentFrom, decodePartialFrom]
      · cases hone : Decoder.decodeOne visit s (b :: src) with
        | mk s' r =>
          cases r with
          | error e =>
            cases e with
            | err e => cases e <;> rfl
            | visit | panic => rfl
          | ok n =>
            have hsize := Decoder.decodeOne_size visit s (b :: src) (by rw [hone])
            apply ih
            simp only [List.length_drop, List.length_cons] at h ⊢
            omega
      all_goals exact List.cons_ne_nil b src

theorem configured_decodeBlock (s : Session) (v : σ) (block : Bytes) :
    Decoder.Configured s.dec (s.decodeBlock visit v block).1.1.dec := by
  have hloop := configured_decodePartialFrom visit block.length ({ s.dec with listTotal := 0 }, v)
    block
  unfold decodeBlock Decoder.decodeBlock Decoder.decodeFragment
  rw [decodeFragmentFrom_eq visit _ _ _ (Nat.le_refl _)]
  generalize decodePartialFrom visit block.length _ block = out at hloop ⊢
  rcases out with ⟨x, rest, _ | e⟩ <;>
    exact ⟨hloop.maxLocal, hloop.maxListSize, hloop.hash⟩

theorem configured_feed (s : Session) (v : σ) (fragment : Bytes) :
    Decoder.Configured s.dec (s.feed visit v fragment).1.1.dec := by
  unfold feed
  split_ifs
  · have hpartial := configured_decodePartialFrom visit
      (s.pending ++ fragment).length (s.dec, v) (s.pending ++ fragment)
    dsimp only
    split <;> rename_i heq <;> rw [heq] at hpartial <;> exact hpartial
  · exact .refl _

end Session

end Hpack
