import PoseidonHttp.Grpc.Stream

/-!
# What the metadata options change

A stream keeps a copy of each response block in memory of its own or in the pooled arena, or keeps
none. Whatever it does, its receiver sees `view` of the block: the block itself, or at most its
first 1024 fields. So a stream is its receiver (`pump_rx`), and two streams that see the same of
every block behave alike.

* `options_disagree`: a trailer block of more than 1024 fields whose `grpc-status` is the last of
  them ends a call with success where the metadata is discarded, and with an error where it is kept.
* `options_agree`: in every run where the fields the client reads are among the first 1024 of their
  block, the option changes neither the messages nor the errors nor the status.
-/

namespace Grpc

open Header (Bytes Field ascii)
open Growth (Allocator Arena doubling)
open Slice

/-! ## The arena -/

namespace Bufs

variable {a : Allocator} {b b' b'' : Bufs} {v : Growth.View} {fs : List Field}

/-- The arena holds the field. -/
def Holds (b : Bufs) (v : FieldView) : Prop := b.md.Holds v.name ∧ b.md.Holds v.value

/-- A view shows these fields. -/
structure Shows (b : Bufs) (v : Growth.View) (fs : List Field) : Prop where
  held : b.mdFields.Holds v
  fieldsHeld : ∀ x ∈ b.mdFields.read v, b.Holds x
  fields_eq : b.fields v = fs

/-- Nothing that was in the arena has changed. -/
structure Keeps (b b' : Bufs) : Prop where
  md : b.md.Keeps b'.md
  mdFields : b.mdFields.Keeps b'.mdFields

theorem Keeps.trans (h : Keeps b b') (h' : Keeps b' b'') : Keeps b b'' :=
  ⟨h.md.trans h'.md, h.mdFields.trans h'.mdFields⟩

theorem Keeps.holds (h : Keeps b b') {x : FieldView} (hx : b.Holds x) : b'.Holds x :=
  ⟨(h.md _ hx.1).1, (h.md _ hx.2).1⟩

theorem Keeps.field_eq (h : Keeps b b') {x : FieldView} (hx : b.Holds x) : b'.field x = b.field x := by
  rw [field, field, (h.md _ hx.1).2, (h.md _ hx.2).2]

theorem Keeps.shows (h : Keeps b b') (hv : b.Shows v fs) : b'.Shows v fs := by
  obtain ⟨hheld, hread⟩ := h.mdFields v hv.held
  refine ⟨hheld, ?_, ?_⟩
  · intro x hx
    exact h.holds (hv.fieldsHeld x (hread ▸ hx))
  · rw [fields, hread, ← hv.fields_eq]
    refine List.map_congr_left ?_
    intro x hx
    exact h.field_eq (hv.fieldsHeld x hx)

/-- The arena has grown by the fields `fs`, which lie behind what was there. -/
structure Appends (b b' : Bufs) (fs : List Field) (vs : List FieldView) : Prop where
  keeps : Keeps b b'
  current : b'.mdFields.current = b.mdFields.current ++ vs
  held : ∀ x ∈ vs, b'.Holds x
  copies : vs.map b'.field = fs

/-- One field more: its bytes lie right behind what was there. -/
theorem borrowField_appends (a : Allocator) (b : Bufs) (f : Field) :
    ∃ x, Appends b (b.borrowField a f) [copied f] [x] := by
  obtain ⟨md, mdFields⟩ := b
  set md' := (md.append a f.name).append a f.value with hmd'
  have hcurrent : md'.current = md.current ++ f.name ++ f.value := by simp [hmd']
  have hname : (md.append a f.name).current.length = md.current.length + f.name.length := by simp
  refine ⟨⟨md'.view md.current.length (md.append a f.name).current.length,
    md'.view (md.append a f.name).current.length md'.current.length⟩, ⟨?_, ?_⟩, ?_, ?_, ?_⟩
  · exact Arena.keeps_append.trans Arena.keeps_append
  · exact Arena.keeps_append
  · exact Arena.current_append
  · intro x hx
    rw [List.mem_singleton] at hx
    subst hx
    refine ⟨Arena.holds_view ?_, Arena.holds_view (Nat.le_refl _)⟩
    show (md.append a f.name).current.length ≤ md'.current.length
    rw [hcurrent]
    simp only [List.length_append]
    omega
  · show [Bufs.field ⟨md', _⟩ _] = [copied f]
    rw [field, Arena.read_view, Arena.read_view, hname, hcurrent, copied, slice, slice]
    simp only [List.append_assoc, List.drop_left, Nat.add_sub_cancel_left, List.take_left]
    rw [← List.append_assoc, ← List.length_append, List.drop_left, List.length_append,
      List.length_append, Nat.add_sub_cancel_left, List.take_length]

theorem borrowAll_appends (a : Allocator) (b : Bufs) (src : List Field) :
    ∃ vs, Appends b (src.foldl (borrowField a) b) (src.map copied) vs := by
  induction src generalizing b with
  | nil => exact ⟨[], ⟨.refl, .refl⟩, (List.append_nil _).symm, nofun, rfl⟩
  | cons f src ih =>
    obtain ⟨x, hone⟩ := borrowField_appends a b f
    obtain ⟨vs, hrest⟩ := ih (b.borrowField a f)
    refine ⟨x :: vs, hone.keeps.trans hrest.keeps, ?_, ?_, ?_⟩
    · rw [List.foldl_cons, hrest.current, hone.current, List.append_assoc]
      rfl
    · exact List.forall_mem_cons.mpr ⟨hrest.keeps.holds (hone.held _ List.mem_cons_self), hrest.held⟩
    · have hx : (src.foldl (borrowField a) (b.borrowField a f)).field x = copied f := by
        rw [hrest.keeps.field_eq (hone.held _ List.mem_cons_self)]
        exact (List.cons.inj hone.copies).1
      rw [List.foldl_cons, List.map_cons, hrest.copies, hx, List.map_cons]

/-- What stands in the arena behind `start` is shown by the view from there. -/
theorem Appends.shows {vs : List FieldView} (h : Appends b b' fs vs) :
    b'.Shows (b'.mdFields.view b.mdFields.current.length b'.mdFields.current.length) fs := by
  have hread : b'.mdFields.read
      (b'.mdFields.view b.mdFields.current.length b'.mdFields.current.length) = vs := by
    rw [Arena.read_view, h.current, slice, List.drop_left, List.length_append,
      Nat.add_sub_cancel_left, List.take_length]
  refine ⟨Arena.holds_view (Nat.le_refl _), ?_, ?_⟩
  · rw [hread]
    exact h.held
  · rw [fields, hread, h.copies]

theorem borrowFields_spec (a : Allocator) (b : Bufs) (src : List Field) :
    Keeps b (b.borrowFields a src).1 ∧
      (b.borrowFields a src).1.Shows (b.borrowFields a src).2 (cloneFields src) := by
  obtain ⟨vs, happends⟩ := borrowAll_appends a
    ⟨b.md.reserve a _, b.mdFields.reserve a (src.take maxMetadataFields).length⟩
    (src.take maxMetadataFields)
  constructor
  · exact Keeps.trans ⟨Arena.keeps_reserve, Arena.keeps_reserve⟩ happends.keeps
  · exact happends.shows

theorem dupFields_appends (a : Allocator) {copy : Metadata} (hheld : ∀ x ∈ b.views copy, b.Holds x)
    (hfields : (b.views copy).map b.field = fs) :
    Appends b (b.dupFields a copy).1 fs (b.views copy) :=
  ⟨⟨.refl, Arena.keeps_append⟩, Arena.current_append, hheld, hfields⟩

end Bufs

/-! ## A stream is its receiver -/

namespace Stream

variable {a : Allocator} {s : Stream} {block fs : List Field} {copy : Metadata}

/-- What the receiver sees of a block. -/
def view (s : Stream) : List Field → List Field := if s.discardMD then id else cloneFields

/-- The list of metadata shows these fields, and keeps showing them while the arena grows. A stream
that has an arena and uses it owns nothing else. -/
def Shows (s : Stream) : Metadata → List Field → Prop
  | .owned fields, fs => fields = fs ∧ (s.borrowMD = true → s.bufs.isSome = true → fields = [])
  | .borrowed v, fs => ∃ b, s.bufs = some b ∧ b.Shows v fs

theorem Shows.fields_eq (h : s.Shows copy fs) : s.fields copy = fs := by
  cases copy with
  | owned fields => exact h.1
  | borrowed v =>
    obtain ⟨b, hb, hv⟩ := h
    rw [fields, hb]
    exact hv.fields_eq

/-- What a step of the stream leaves of its metadata: the arena only grows. -/
structure Grows (s s' : Stream) : Prop where
  rx : s'.rx = s.rx
  discardMD : s'.discardMD = s.discardMD
  shows : ∀ {copy fs}, s.Shows copy fs → s'.Shows copy fs
  header : s'.header = s.header
  trailer : s'.trailer = s.trailer

theorem Grows.refl : Grows s s := ⟨rfl, rfl, id, rfl, rfl⟩

theorem grows_bufs {b b' : Bufs} (hb : s.bufs = some b) (h : b.Keeps b') :
    Grows s { s with bufs := some b' } := by
  refine ⟨rfl, rfl, ?_, rfl, rfl⟩
  intro copy fs hshows
  cases copy with
  | owned fields =>
    refine ⟨hshows.1, ?_⟩
    intro hborrow _
    exact hshows.2 hborrow (by rw [hb]; rfl)
  | borrowed v =>
    obtain ⟨b₀, hb₀, hv⟩ := hshows
    obtain rfl : b₀ = b := Option.some.inj (hb₀.symm.trans hb)
    exact ⟨b', rfl, h.shows hv⟩

theorem copyFields_spec (a : Allocator) (s : Stream) (block : List Field) :
    Grows s (s.copyFields a block).1 ∧
      (s.copyFields a block).1.Shows (s.copyFields a block).2 (cloneFields block) := by
  unfold copyFields
  split
  · rename_i b _ hb
    split_ifs with hempty
    · rw [hempty]
      exact ⟨.refl, rfl, fun _ _ => rfl⟩
    · have hborrowed := b.borrowFields_spec a block
      exact ⟨grows_bufs hb hborrowed.1, _, rfl, hborrowed.2⟩
  · rename_i hheap
    refine ⟨.refl, rfl, ?_⟩
    intro hborrow hbufs
    obtain ⟨b, hb⟩ := Option.isSome_iff_exists.mp hbufs
    exact absurd hb (hheap b hborrow)

theorem dupFields_spec (a : Allocator) (h : s.Shows copy fs) :
    Grows s (s.dupFields a copy).1 ∧ (s.dupFields a copy).1.Shows (s.dupFields a copy).2 fs := by
  unfold dupFields
  split
  · rename_i b hborrow hb
    have hviews : (∀ x ∈ b.views copy, b.Holds x) ∧ (b.views copy).map b.field = fs := by
      cases copy with
      | owned fields =>
        obtain ⟨rfl, hnone⟩ := h
        rw [hnone hborrow (by rw [hb]; rfl)]
        exact ⟨nofun, rfl⟩
      | borrowed v =>
        obtain ⟨b₀, hb₀, hv⟩ := h
        obtain rfl : b₀ = b := Option.some.inj (hb₀.symm.trans hb)
        exact ⟨hv.fieldsHeld, hv.fields_eq⟩
    have happends := Bufs.dupFields_appends a hviews.1 hviews.2
    exact ⟨grows_bufs hb happends.keeps, _, rfl, happends.shows⟩
  · rename_i hheap
    refine ⟨.refl, h.fields_eq, ?_⟩
    intro hborrow hbufs
    obtain ⟨b, hb⟩ := Option.isSome_iff_exists.mp hbufs
    exact absurd hb (hheap b hborrow)

theorem keepHeader_eq (hkeep : s.discardMD = false) : s.keepHeader a block =
    { (s.copyFields a block).1 with header := (s.copyFields a block).2 } := by
  rw [keepHeader, if_neg (by rw [hkeep]; exact Bool.false_ne_true)]

theorem keepTrailer_eq (hkeep : s.discardMD = false) : s.keepTrailer a block =
    { (s.copyFields a block).1 with trailer := (s.copyFields a block).2 } := by
  rw [keepTrailer, if_neg (by rw [hkeep]; exact Bool.false_ne_true)]

/-- The stream keeps its metadata, and shows these lists. -/
structure Keeping (s : Stream) (header trailer : List Field) : Prop where
  discardMD : s.discardMD = false
  header : s.Shows s.header header
  trailer : s.Shows s.trailer trailer

variable {header trailer : List Field} {endStream : Bool}

section Keeping

variable (h : s.Keeping header trailer)

include h

theorem Keeping.keepHeader (a : Allocator) (block : List Field) :
    (s.keepHeader a block).Keeping (cloneFields block) trailer := by
  obtain ⟨hgrows, hshows⟩ := copyFields_spec a s block
  rw [keepHeader_eq h.discardMD]
  refine ⟨hgrows.discardMD.trans h.discardMD, hshows, ?_⟩
  have htrailer := hgrows.shows h.trailer
  rw [← hgrows.trailer] at htrailer
  exact htrailer

theorem Keeping.keepTrailer (a : Allocator) (block : List Field) :
    (s.keepTrailer a block).Keeping header (cloneFields block) := by
  obtain ⟨hgrows, hshows⟩ := copyFields_spec a s block
  rw [keepTrailer_eq h.discardMD]
  refine ⟨hgrows.discardMD.trans h.discardMD, ?_, hshows⟩
  have hheader := hgrows.shows h.header
  rw [← hgrows.header] at hheader
  exact hheader

theorem Keeping.dupHeader (a : Allocator) : (s.dupHeader a).Keeping header header := by
  obtain ⟨hgrows, hshows⟩ := dupFields_spec a h.header
  have hheader : (s.dupFields a s.header).1.Shows (s.dupFields a s.header).1.header header := by
    rw [hgrows.header]
    exact hgrows.shows h.header
  rw [Stream.dupHeader, if_neg (ne_true_of_eq_false h.discardMD)]
  exact ⟨hgrows.discardMD.trans h.discardMD, hheader, hshows⟩

theorem Keeping.setRx (r : Receiver) : Keeping { s with rx := r } header trailer :=
  { h with }

/-- The header block is kept; where it ends the stream, it is the trailer block as well. -/
theorem Keeping.onHeaders (hfirst : s.rx.headersSeen = false)
    (a : Allocator) (block : List Field) (endStream : Bool) :
    (s.onHeaders a block endStream).Keeping (cloneFields block)
      (if endStream then cloneFields block else trailer) := by
  unfold Stream.onHeaders
  rw [if_neg (by rw [hfirst]; exact Bool.false_ne_true)]
  cases endStream with
  | true => exact ((h.keepHeader a block).dupHeader a).setRx _
  | false => exact (h.keepHeader a block).setRx _

theorem Keeping.onTrailers (a : Allocator) (block : List Field) :
    (s.onTrailers a block).Keeping header (cloneFields block) :=
  (h.keepTrailer a block).setRx _

end Keeping

/-! The receiver does not see how the metadata is kept. -/

/-- Keeping metadata touches neither the receiver nor the options. -/
structure Behind (s s' : Stream) : Prop where
  rx : s'.rx = s.rx
  discardMD : s'.discardMD = s.discardMD

theorem behind_keepHeader : Behind s (s.keepHeader a block) := by
  unfold keepHeader
  split_ifs
  · exact ⟨rfl, rfl⟩
  · exact ⟨(copyFields_spec a s block).1.rx, (copyFields_spec a s block).1.discardMD⟩

theorem behind_keepTrailer : Behind s (s.keepTrailer a block) := by
  unfold keepTrailer
  split_ifs
  · exact ⟨rfl, rfl⟩
  · exact ⟨(copyFields_spec a s block).1.rx, (copyFields_spec a s block).1.discardMD⟩

theorem behind_dupHeader : Behind s (s.dupHeader a) := by
  unfold dupHeader dupFields
  split_ifs
  · exact ⟨rfl, rfl⟩
  · split <;> exact ⟨rfl, rfl⟩

theorem live_keepHeader :
    (s.keepHeader a block).live block (s.keepHeader a block).header = s.view block := by
  unfold live view
  rw [behind_keepHeader.discardMD]
  split_ifs with hdiscard
  · rfl
  · rw [keepHeader_eq (Bool.not_eq_true _ ▸ hdiscard)]
    exact (copyFields_spec a s block).2.fields_eq

theorem live_keepTrailer :
    (s.keepTrailer a block).live block (s.keepTrailer a block).trailer = s.view block := by
  unfold live view
  rw [behind_keepTrailer.discardMD]
  split_ifs with hdiscard
  · rfl
  · rw [keepTrailer_eq (Bool.not_eq_true _ ▸ hdiscard)]
    exact (copyFields_spec a s block).2.fields_eq

theorem onHeaders_rx :
    (s.onHeaders a block endStream).rx = s.rx.onHeaders (s.view block) endStream := by
  unfold onHeaders
  split_ifs with hseen hend
  · rw [Receiver.onHeaders, if_pos hseen]
  · show Receiver.onHeaders _ _ _ = _
    rw [live_keepHeader, behind_dupHeader.rx, behind_keepHeader.rx]
  · show Receiver.onHeaders _ _ _ = _
    rw [live_keepHeader, behind_keepHeader.rx]

theorem onHeaders_discardMD : (s.onHeaders a block endStream).discardMD = s.discardMD := by
  unfold onHeaders
  split_ifs
  · rfl
  · exact behind_dupHeader.discardMD.trans behind_keepHeader.discardMD
  · exact behind_keepHeader.discardMD

theorem onTrailers_rx : (s.onTrailers a block).rx = s.rx.finish (s.view block) := by
  show Receiver.finish _ _ = _
  rw [live_keepTrailer, behind_keepTrailer.rx]

/-- The receiver of a stream runs on its own, on what it sees of each block. -/
theorem pump_rx (a : Allocator) (s : Stream) (x : Incoming) :
    ((s.pump a x).1.rx, (s.pump a x).2) = s.rx.pump s.view x := by
  cases x with
  | pushPromise | failed => rfl
  | event e slab =>
    cases e with
    | headers block endStream => exact Prod.ext onHeaders_rx rfl
    | trailers block endStream => exact Prod.ext onTrailers_rx rfl
    | interimHeaders | data | reset => rfl

theorem pump_discardMD (a : Allocator) (s : Stream) (x : Incoming) :
    (s.pump a x).1.discardMD = s.discardMD := by
  cases x with
  | pushPromise | failed => rfl
  | event e slab =>
    cases e with
    | headers block endStream => exact onHeaders_discardMD
    | trailers block endStream => exact behind_keepTrailer.discardMD
    | interimHeaders | data | reset => rfl

end Stream

/-! ## Two runs -/

/-- Two machines that look and pump alike go through the loop alike. -/
theorem pumpUntil_rel {σ τ β : Type} {R : σ → τ → Prop} {P : Incoming → Prop}
    {pump : σ → Incoming → σ × Option Err} {pump' : τ → Incoming → τ × Option Err}
    {look : σ → σ × Option (Except Err β)} {look' : τ → τ × Option (Except Err β)}
    (hlook : ∀ {s t}, R s t → R (look s).1 (look' t).1 ∧ (look s).2 = (look' t).2)
    (hpump : ∀ {s t x}, P x → R s t → R (pump s x).1 (pump' t x).1 ∧ (pump s x).2 = (pump' t x).2)
    {s : σ} {t : τ} (h : R s t) {xs : List Incoming} (hxs : ∀ x ∈ xs, P x) :
    R (pumpUntil pump look s xs).1.1 (pumpUntil pump' look' t xs).1.1 ∧
      (pumpUntil pump look s xs).1.2 = (pumpUntil pump' look' t xs).1.2 ∧
      (pumpUntil pump look s xs).2 = (pumpUntil pump' look' t xs).2 := by
  induction xs generalizing s t with
  | nil =>
    obtain ⟨hstate, hresult⟩ := hlook h
    exact ⟨hstate, rfl, hresult⟩
  | cons x xs ih =>
    obtain ⟨hstate, hresult⟩ := hlook h
    rcases hs : look s with ⟨s₁, r⟩
    rcases ht : look' t with ⟨t₁, r'⟩
    rw [hs, ht] at hstate hresult
    obtain rfl : r = r' := hresult
    cases r with
    | some r => simpa [pumpUntil, hs, ht] using hstate
    | none =>
      obtain ⟨hstate', herr⟩ := hpump (hxs x List.mem_cons_self) hstate
      rcases hps : pump s₁ x with ⟨s₂, e⟩
      rcases hpt : pump' t₁ x with ⟨t₂, e'⟩
      rw [hps, hpt] at hstate' herr
      obtain rfl : e = e' := herr
      cases e with
      | some e => simpa [pumpUntil, hs, ht, hps, hpt] using hstate'
      | none =>
        simpa [pumpUntil, hs, ht, hps, hpt] using
          ih hstate' fun x hx => hxs x (List.mem_cons_of_mem _ hx)

theorem pumpUntil_suffix {σ β : Type} {pump : σ → Incoming → σ × Option Err}
    {look : σ → σ × Option (Except Err β)} (s : σ) (xs : List Incoming) :
    (pumpUntil pump look s xs).1.2 <:+ xs := by
  induction xs generalizing s with
  | nil => exact List.suffix_rfl
  | cons x xs ih =>
    rw [pumpUntil]
    split
    · exact List.suffix_rfl
    · split
      · exact List.suffix_cons x xs
      · exact (ih _).trans (List.suffix_cons x xs)

/-- Whether an event fails a call does not depend on what is seen of its block. -/
theorem Receiver.pump_err (v v' : List Field → List Field) (r : Receiver) (x : Incoming) :
    (r.pump v x).2 = (r.pump v' x).2 := by
  cases x with
  | pushPromise | failed => rfl
  | event e slab => cases e <;> rfl

namespace Stream

/-- Two streams with the same receiver, which stays the same through every event with `P`. -/
structure Simulation (a : Allocator) (R : Stream → Stream → Prop) (P : Incoming → Prop) : Prop where
  rx : ∀ {s t}, R s t → s.rx = t.rx
  setRx : ∀ {s t} (r : Receiver), R s t → R { s with rx := r } { t with rx := r }
  pump : ∀ {s t x}, P x → R s t → R (s.pump a x).1 (t.pump a x).1

/-- `Recv` and `RecvInto`. -/
def Call.receives : Call → Bool
  | .recv | .recvInto _ => true
  | _ => false

namespace Simulation

variable {a : Allocator} {R : Stream → Stream → Prop} {P : Incoming → Prop} {s t : Stream}
  {xs : List Incoming}

/-- Both have come to the same point. -/
def Together {β : Type} (R : Stream → Stream → Prop)
    (p q : (Stream × List Incoming) × Option β) : Prop :=
  R p.1.1 q.1.1 ∧ p.1.2 = q.1.2 ∧ p.2 = q.2

theorem Together.map {β γ : Type} {p q : (Stream × List Incoming) × Option β} (h : Together R p q)
    (f : β → γ) : Together R (p.1, p.2.map f) (q.1, q.2.map f) :=
  ⟨h.1, h.2.1, congrArg (Option.map f) h.2.2⟩

theorem step (sim : Simulation a R P) {s t : Stream} {x : Incoming} (hx : P x) (h : R s t) :
    R (s.pump a x).1 (t.pump a x).1 ∧ (s.pump a x).2 = (t.pump a x).2 := by
  refine ⟨sim.pump hx h, ?_⟩
  have hs := congrArg Prod.snd (pump_rx a s x)
  have ht := congrArg Prod.snd (pump_rx a t x)
  rw [← sim.rx h] at ht
  exact hs.trans ((Receiver.pump_err _ _ _ _).trans ht.symm)

theorem recvInto (sim : Simulation a R P) (h : R s t) (hxs : ∀ x ∈ xs, P x) (dst : Bytes) :
    Together R (s.recvInto a dst xs) (t.recvInto a dst xs) := by
  unfold Stream.recvInto
  rw [← sim.rx h]
  split_ifs
  · exact ⟨h, rfl, rfl⟩
  · have hlook : ∀ {s t : Stream}, R s t →
        R s.lookMessage.1 t.lookMessage.1 ∧ s.lookMessage.2 = t.lookMessage.2 := by
      intro s t h
      unfold Stream.lookMessage
      rw [← sim.rx h]
      exact ⟨sim.setRx _ h, rfl⟩
    obtain ⟨hstreams, hrest, hresult⟩ := pumpUntil_rel hlook sim.step h hxs
    exact ⟨hstreams, hrest, congrArg (Option.bind · _) hresult⟩

/-- The calls that receive a message. -/
theorem receives (sim : Simulation a R P) {c : Call} (hc : c.receives = true) (h : R s t)
    (hxs : ∀ x ∈ xs, P x) : Together R (s.call a xs c) (t.call a xs c) := by
  have hinto := fun dst => (sim.recvInto h hxs dst).map fun r => Outcome.received r.1 r.2
  cases c with
  | recvInto dst => exact hinto dst
  | recv => exact hinto []
  | header | close => cases hc

/-- `Header` as well, where both show the same header. -/
theorem getHeader (sim : Simulation a R P)
    (hheader : ∀ {s t : Stream}, R s t → s.fields s.header = t.fields t.header) (h : R s t)
    (hxs : ∀ x ∈ xs, P x) : Together R (s.getHeader a xs) (t.getHeader a xs) := by
  unfold Stream.getHeader
  rw [← sim.rx h]
  split_ifs
  · exact ⟨h, rfl, rfl⟩
  · have hlook : ∀ {s t : Stream}, R s t →
        R s.lookHeader.1 t.lookHeader.1 ∧ s.lookHeader.2 = t.lookHeader.2 := by
      intro s t h
      unfold Stream.lookHeader
      rw [← sim.rx h, ← hheader h]
      exact ⟨sim.setRx _ h, rfl⟩
    exact pumpUntil_rel hlook sim.step h hxs

theorem call_suffix (a : Allocator) (s : Stream) (xs : List Incoming) (c : Call) :
    (s.call a xs c).1.2 <:+ xs := by
  have hinto : ∀ dst, (s.recvInto a dst xs).1.2 <:+ xs := by
    intro dst
    unfold Stream.recvInto
    split_ifs
    · exact List.suffix_rfl
    · exact pumpUntil_suffix _ _
  cases c with
  | recvInto dst => exact hinto dst
  | recv => exact hinto []
  | header =>
    show (s.getHeader a xs).1.2 <:+ xs
    unfold Stream.getHeader
    split_ifs
    · exact List.suffix_rfl
    · exact pumpUntil_suffix _ _
  | close => exact List.suffix_rfl

/-- Runs of calls that go alike one by one. -/
theorem run {allowed : Call → Prop}
    (hcall : ∀ {s t : Stream} {xs : List Incoming} {c : Call}, allowed c → R s t →
      (∀ x ∈ xs, P x) → Together R (s.call a xs c) (t.call a xs c))
    {cs : List Call} (hcs : ∀ c ∈ cs, allowed c) (h : R s t) (hxs : ∀ x ∈ xs, P x) :
    R (s.run a xs cs).1.1 (t.run a xs cs).1.1 ∧ (s.run a xs cs).2 = (t.run a xs cs).2 := by
  induction cs generalizing s t xs with
  | nil => exact ⟨h, rfl⟩
  | cons c cs ih =>
    obtain ⟨hstate, hrest, hresult⟩ := hcall (hcs c List.mem_cons_self) h hxs
    have hsuffix := call_suffix a s xs c
    rcases hs : s.call a xs c with ⟨⟨s₁, ys⟩, o⟩
    rcases ht : t.call a xs c with ⟨⟨t₁, zs⟩, o'⟩
    rw [hs] at hsuffix
    rw [hs, ht] at hstate hrest hresult
    obtain rfl : ys = zs := hrest
    obtain rfl : o = o' := hresult
    cases o with
    | none => simpa [Stream.run, hs, ht] using hstate
    | some o =>
      obtain ⟨hfinal, houts⟩ := ih (fun c hc => hcs c (List.mem_cons_of_mem _ hc)) hstate
        fun x hx => hxs x (hsuffix.subset hx)
      simpa [Stream.run, hs, ht, houts] using hfinal

end Simulation

end Stream

/-! ## The options -/

/-- The names a client looks for in a block. -/
def readNames : List Bytes := [statusName, contentTypeName, grpcStatusName, grpcMessageName]

/-- Each name the client looks for is found in the block as it is in its first 1024 fields. -/
def Readable (block : List Field) : Prop :=
  ∀ name ∈ readNames, findField (block.take maxMetadataFields) name = findField block name

instance (block : List Field) : Decidable (Readable block) :=
  inferInstanceAs (Decidable (∀ name ∈ readNames, _))

/-- The block an event carries. -/
def Incoming.block : Incoming → List Field
  | .event (.headers block _) _ | .event (.trailers block _) _ => block
  | _ => []

theorem findField_cloneFields (block : List Field) (name : Bytes) :
    findField (cloneFields block) name = findField (block.take maxMetadataFields) name := by
  rw [findField, cloneFields, List.find?_map, Option.map_map]
  rfl

section Readable

variable {block : List Field} (h : Readable block)

include h

theorem Readable.findField_eq {name : Bytes} (hname : name ∈ readNames) :
    findField (cloneFields block) name = findField block name := by
  rw [findField_cloneFields, h name hname]

theorem Readable.finish (r : Receiver) : r.finish (cloneFields block) = r.finish block := by
  unfold Receiver.finish Receiver.finalStatus
  rw [h.findField_eq (by simp [readNames]), h.findField_eq (by simp [readNames])]

theorem Readable.onHeaders (r : Receiver) (endStream : Bool) :
    r.onHeaders (cloneFields block) endStream = r.onHeaders block endStream := by
  have hstatus : pseudoStatus (cloneFields block) = pseudoStatus block := by
    rw [pseudoStatus, pseudoStatus, h.findField_eq (by simp [readNames])]
  have htype : validContentType (cloneFields block) = validContentType block := by
    rw [validContentType, validContentType, h.findField_eq (by simp [readNames])]
  simp only [Receiver.onHeaders, hstatus, htype, h.finish]

end Readable

variable {x : Incoming}

/-- What is seen of a block makes no difference where the block is readable. -/
theorem Receiver.pump_readable (h : Readable x.block) (r : Receiver) :
    r.pump cloneFields x = r.pump id x := by
  cases x with
  | pushPromise | failed => rfl
  | event e slab =>
    cases e with
    | headers block endStream => exact Prod.ext (h.onHeaders r endStream) rfl
    | trailers block endStream => exact Prod.ext (h.finish r) rfl
    | interimHeaders | data | reset => rfl

namespace Stream

variable {a : Allocator}

theorem view_eq_or (s : Stream) : s.view = id ∨ s.view = cloneFields := by
  unfold view
  split_ifs
  · exact .inl rfl
  · exact .inr rfl

theorem pump_view {s : Stream} (h : Readable x.block) (r : Receiver) :
    r.pump s.view x = r.pump id x := by
  rcases s.view_eq_or with hview | hview
  · rw [hview]
  · rw [hview, Receiver.pump_readable h]

/-- Streams that keep their metadata in different ways, or not at all. -/
theorem simulation_rx (a : Allocator) :
    Simulation a (fun s t => s.rx = t.rx) (fun x => Readable x.block) where
  rx h := h
  setRx _ _ := rfl
  pump := by
    intro s t x hx h
    have hs := congrArg Prod.fst (pump_rx a s x)
    have ht := congrArg Prod.fst (pump_rx a t x)
    rw [pump_view hx] at hs ht
    rw [h] at hs
    exact hs.trans ht.symm

/-- Both keep their metadata, and show the same. -/
def Shown (s t : Stream) : Prop :=
  s.rx = t.rx ∧ ∃ header trailer, s.Keeping header trailer ∧ t.Keeping header trailer

theorem Shown.header_eq {s t : Stream} (h : Shown s t) : s.fields s.header = t.fields t.header := by
  obtain ⟨-, header, trailer, hs, ht⟩ := h
  rw [hs.header.fields_eq, ht.header.fields_eq]

theorem Shown.trailer_eq {s t : Stream} (h : Shown s t) : s.getTrailer = t.getTrailer := by
  obtain ⟨-, header, trailer, hs, ht⟩ := h
  rw [getTrailer, getTrailer, hs.trailer.fields_eq, ht.trailer.fields_eq]

/-- What becomes of the metadata depends on the event alone. -/
theorem exists_keeping_pump (a : Allocator) (s : Stream) (header trailer : List Field)
    (x : Incoming) :
    ∃ header' trailer', ∀ t : Stream, t.rx = s.rx → t.Keeping header trailer →
      (t.pump a x).1.Keeping header' trailer' := by
  cases x with
  | pushPromise | failed => exact ⟨header, trailer, fun t _ ht => ht.setRx _⟩
  | event e slab =>
    cases e with
    | headers block endStream =>
      by_cases hseen : s.rx.headersSeen = true
      · refine ⟨header, trailer, ?_⟩
        intro t hrx ht
        show (t.onHeaders a block endStream).Keeping header trailer
        rw [Stream.onHeaders, if_pos (by rw [hrx]; exact hseen)]
        exact ht
      · refine ⟨cloneFields block, if endStream then cloneFields block else trailer, ?_⟩
        intro t hrx ht
        exact ht.onHeaders (by rw [hrx]; exact Bool.not_eq_true _ ▸ hseen) a block endStream
    | trailers block endStream => exact ⟨header, cloneFields block, fun t _ ht => ht.onTrailers a block⟩
    | interimHeaders | data | reset => exact ⟨header, trailer, fun t _ ht => ht.setRx _⟩

theorem Keeping.view_eq {s : Stream} {header trailer : List Field} (h : s.Keeping header trailer) :
    s.view = cloneFields := by
  rw [view, if_neg (by rw [h.discardMD]; exact Bool.false_ne_true)]

theorem simulation_shown (a : Allocator) : Simulation a Shown (fun _ => True) where
  rx h := h.1
  setRx r h := by
    obtain ⟨-, header, trailer, hs, ht⟩ := h
    exact ⟨rfl, header, trailer, hs.setRx r, ht.setRx r⟩
  pump := by
    intro s t x _ h
    obtain ⟨hrx, header, trailer, hs, ht⟩ := h
    obtain ⟨header', trailer', hpump⟩ := exists_keeping_pump a s header trailer x
    refine ⟨?_, header', trailer', hpump s rfl hs, hpump t hrx.symm ht⟩
    have hs' := congrArg Prod.fst (pump_rx a s x)
    have ht' := congrArg Prod.fst (pump_rx a t x)
    rw [hs.view_eq, hrx] at hs'
    rw [ht.view_eq] at ht'
    exact hs'.trans ht'.symm

theorem keeping_opened (max : ℤ) (borrowMD : Bool) (room : Option (ℕ × ℕ)) :
    (opened max false borrowMD room).Keeping [] [] :=
  ⟨rfl, ⟨rfl, fun _ _ => rfl⟩, ⟨rfl, fun _ _ => rfl⟩⟩

/-- A stream with one of the three options, after some calls. -/
def after (a : Allocator) (max : ℤ) (room : Option (ℕ × ℕ)) (xs : List Incoming) (calls : List Call)
    (discardMD borrowMD : Bool) : (Stream × List Incoming) × List Outcome :=
  (opened max discardMD borrowMD room).run a xs calls

/-- Where the fields the client reads are among the first 1024, all options give the same messages,
errors and status. With any fields, keeping the metadata gives the same in either way, and shows the
same header and trailer until the stream is closed. -/
theorem options_agree (a : Allocator) (max : ℤ) (room : Option (ℕ × ℕ)) (xs : List Incoming)
    (calls : List Call) :
    ((∀ x ∈ xs, Readable x.block) → (∀ c ∈ calls, c.receives = true) → ∀ discardMD borrowMD,
      (after a max room xs calls discardMD borrowMD).2 = (after a max room xs calls false false).2 ∧
        (after a max room xs calls discardMD borrowMD).1.1.rx.status =
          (after a max room xs calls false false).1.1.rx.status) ∧
    ((∀ c ∈ calls, c ≠ .close) →
      (after a max room xs calls false true).2 = (after a max room xs calls false false).2 ∧
        (after a max room xs calls false true).1.1.rx.status =
          (after a max room xs calls false false).1.1.rx.status ∧
        (after a max room xs calls false true).1.1.fields
            (after a max room xs calls false true).1.1.header =
          (after a max room xs calls false false).1.1.fields
            (after a max room xs calls false false).1.1.header ∧
        (after a max room xs calls false true).1.1.getTrailer =
          (after a max room xs calls false false).1.1.getTrailer) := by
  constructor
  · intro hread hcalls discardMD borrowMD
    obtain ⟨hrx, houts⟩ := Simulation.run (simulation_rx a).receives hcalls
      (show (opened max discardMD borrowMD room).rx = (opened max false false room).rx from rfl) hread
    exact ⟨houts, congrArg Receiver.status hrx⟩
  · intro hcalls
    have hcall : ∀ {s t : Stream} {xs : List Incoming} {c : Call}, c ≠ .close → Shown s t →
        (∀ x ∈ xs, True) → Simulation.Together Shown (s.call a xs c) (t.call a xs c) := by
      intro s t xs c hc h hxs
      cases c with
      | recvInto | recv => exact (simulation_shown a).receives rfl h hxs
      | header => exact ((simulation_shown a).getHeader Shown.header_eq h hxs).map _
      | close => exact absurd rfl hc
    have hopened : Shown (opened max false true room) (opened max false false room) :=
      ⟨rfl, [], [], keeping_opened max true room, keeping_opened max false room⟩
    obtain ⟨hshown, houts⟩ := Simulation.run hcall hcalls hopened
      (show ∀ x ∈ xs, True from fun _ _ => trivial)
    exact ⟨houts, congrArg Receiver.status hshown.1, hshown.header_eq, hshown.trailer_eq⟩

/-- The header block of a gRPC response. -/
def responseHeader : List Field :=
  [⟨statusName, ascii "200", Header.indexIncremental⟩,
    ⟨contentTypeName, ascii "application/grpc", Header.indexIncremental⟩]

/-- A trailer block that declares success behind `n` other fields. -/
def successBehind (n : ℕ) : List Field :=
  List.replicate n ⟨ascii "x", [], Header.indexIncremental⟩ ++
    [⟨grpcStatusName, ascii "0", Header.indexIncremental⟩]

/-- A response without a message whose trailer block declares success behind `n` other fields. -/
def emptyResponse (n : ℕ) : List Incoming :=
  [.event (.headers responseHeader false) none, .event (.trailers (successBehind n) true) none]

theorem options_agree_two :
    (∀ x ∈ emptyResponse 2, Readable x.block) ∧
      (after doubling 0 (some (0, 0)) (emptyResponse 2) [.recv] true false).2 =
        (after doubling 0 (some (0, 0)) (emptyResponse 2) [.recv] false false).2 ∧
      (after doubling 0 (some (0, 0)) (emptyResponse 2) [.recv] false true).1.1.getTrailer =
        (after doubling 0 (some (0, 0)) (emptyResponse 2) [.recv] false false).1.1.getTrailer := by
  have hread : ∀ x ∈ emptyResponse 2, Readable x.block := by decide +kernel
  have hagree := options_agree doubling 0 (some (0, 0)) (emptyResponse 2) [.recv]
  exact ⟨hread, (hagree.1 hread (by decide) true false).1, (hagree.2 (by decide)).2.2.2⟩

/-- The status behind 1024 fields is found where the metadata is discarded, and missed where it is
kept. -/
theorem options_disagree :
    (after doubling 0 none (emptyResponse 1024) [.recv] true false).2 =
        [.received [] (some .eof)] ∧
      (after doubling 0 none (emptyResponse 1024) [.recv] false false).2 =
        [.received [] (some (.status
          { code := .unknown
            message := ascii "server returned HTTP status 200 without a grpc-status" }))] := by
  constructor <;> decide +kernel

end Stream

end Grpc
