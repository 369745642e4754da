import PoseidonHttp.Conn.Registry

/-!
# Stream slots

`inflight` counts the client's streams that have not returned their slot, and
`pushInflight` the pushed ones. The counters follow `inflightDone`, which each release
sets before it counts down; what makes them exact is that a struct leaves the
registry in the section that sets the flag, and that it is reset only after that.

The id is assigned in a section of its own, after the one that looked at `closed`: a
`Close` in between returns the slot, and the stream is registered without one.
-/

namespace Conn.Registry

open Transition

/-- It holds a slot of the client's. -/
def Stream.holdsSlot (t : Stream) : Bool := t.owned && !t.pushed && !t.inflightDone

/-- It holds a slot for pushed streams. -/
def Stream.holdsPush (t : Stream) : Bool := t.owned && t.pushed && !t.inflightDone

namespace State

open Conn.Registry.Stream (holdsSlot holdsPush)

/-- The counters are the numbers of streams that hold a slot, and every registered
stream holds one. -/
structure Exact (s : State) : Prop where
  inflight : s.inflight = Slots.count holdsSlot s.struct s.size
  pushInflight : s.pushInflight = Slots.count holdsPush s.struct s.size
  registered : ∀ id k, s.streams.lookup id = some k → (s.struct k).inflightDone = false

/-- An id is assigned to a stream that holds its slot, and the slot of a stream that
was seen without an id is returned before it has one. -/
def Timely (s : State) : Op → Prop
  | .run (.headers k _) _ _ =>
    (s.struct k).id = 0 → (s.struct k).owned = true ∧ (s.struct k).inflightDone = false
  | .run (.releaseUnassigned k) _ _ =>
    (s.struct k).inflightDone = false → (s.struct k).owned = true ∧ (s.struct k).id = 0
  | _ => True

instance (s : State) (op : Op) : Decidable (s.Timely op) := by
  cases op
  case run t _ _ => cases t <;> dsimp only [Timely] <;> infer_instance
  all_goals exact isTrue trivial

/-- What ties the slot of a struct to its place: in the registry it holds one, and
once it waits to be reset it has returned it. -/
structure Slotted (s : State) (k : ℕ) : Prop where
  registered : ∀ id, s.streams.lookup id = some k → (s.struct k).inflightDone = false
  recycled : 0 < s.recycles k → (s.struct k).inflightDone = true
  connDone : (s.struct k).connDone = true → (s.struct k).inflightDone = true
  pooled : (s.struct k).owned = false →
    (s.struct k).inflightDone = false ∧ (s.struct k).pushed = false
  pushed : (s.struct k).pushed = true → (s.struct k).id ≠ 0

structure Accounted (s : State) : Prop where
  slotted : ∀ k, s.Slotted k
  inflight : s.inflight = Slots.count holdsSlot s.struct s.size
  pushInflight : s.pushInflight = Slots.count holdsPush s.struct s.size

variable {s s' : State} {k id : ℕ}

theorem Slotted.keeps (h : s.Slotted k) (hk : s.Keeps s' k)
    (hslot : (s'.struct k).slot = (s.struct k).slot) : s'.Slotted k := by
  have hlife := hk.life
  simp only [Stream.life, Stream.slot, Prod.mk.injEq] at hlife hslot
  obtain ⟨hid, howned, hconn, -, -, hwant⟩ := hlife
  obtain ⟨-, hpushed, hdone⟩ := hslot
  have hrec : s'.recycles k = s.recycles k := by simp only [recycles, hk.recycle, hwant]
  constructor
  · rw [hdone]
    exact fun id hl => h.registered id (hk.streams id hl)
  · rw [hrec, hdone]
    exact h.recycled
  · rw [hconn, hdone]
    exact h.connDone
  · rw [howned, hdone, hpushed]
    exact h.pooled
  · rw [hpushed, hid]
    exact h.pushed

theorem holdsSlot_congr {t t' : Stream} (h : t'.slot = t.slot) : t'.holdsSlot = t.holdsSlot := by
  simp only [Stream.slot, Prod.mk.injEq] at h
  simp only [holdsSlot, h]

theorem holdsPush_congr {t t' : Stream} (h : t'.slot = t.slot) : t'.holdsPush = t.holdsPush := by
  simp only [Stream.slot, Prod.mk.injEq] at h
  simp only [holdsPush, h]

/-- A step that changes no slot. -/
theorem Accounted.keeps (h : s.Accounted) (hk : ∀ k, s.Keeps s' k)
    (hslot : ∀ k, (s'.struct k).slot = (s.struct k).slot) (hsize : s'.size = s.size)
    (hin : s'.inflight = s.inflight) (hpush : s'.pushInflight = s.pushInflight) : s'.Accounted := by
  constructor
  · exact fun k => (h.slotted k).keeps (hk k) (hslot k)
  · rw [hin, hsize, h.inflight]
    exact Slots.count_congr fun i _ => (holdsSlot_congr (hslot i)).symm
  · rw [hpush, hsize, h.pushInflight]
    exact Slots.count_congr fun i _ => (holdsPush_congr (hslot i)).symm

/-- The count after a step that changes one slot. -/
theorem count_local {p : Stream → Bool} (ht : s.Touches s' k)
    (hfresh : ∀ i, s.size ≤ i → p (s.struct i) = false) (hk : k < s'.size) :
    Slots.count p s'.struct s'.size + (p (s.struct k)).toNat =
      Slots.count p s.struct s.size + (p (s'.struct k)).toNat := by
  have hcongr : Slots.count p s'.struct s'.size =
      Slots.count p (Function.update s.struct k (s'.struct k)) s'.size := by
    refine Slots.count_congr fun i _ => ?_
    by_cases hi : i = k
    · simp [hi]
    · simp [hi, ht.struct i hi]
  rw [hcongr, Slots.count_update hk, Slots.count_of_le ht.size hfresh]

section Changes

variable (h : s.Accounted) (hw : s.WF)

include h hw

/-- A step that changes one struct, and the counters by what it holds. -/
theorem Accounted.local (ht : s.Touches s' k) (hk : k < s'.size) (hslotted : s'.Slotted k)
    (hin : s'.inflight + (s.struct k).holdsSlot.toNat =
      s.inflight + (s'.struct k).holdsSlot.toNat)
    (hpush : s'.pushInflight + (s.struct k).holdsPush.toNat =
      s.pushInflight + (s'.struct k).holdsPush.toNat) : s'.Accounted := by
  have hfresh : ∀ i, s.size ≤ i → (s.struct i).owned = false := by
    intro i hi
    by_contra ho
    exact absurd ((hw.fit i).size (by simpa using ho)) (by omega)
  constructor
  · intro j
    by_cases hj : j = k
    · exact hj ▸ hslotted
    · exact (h.slotted j).keeps (ht.keeps hj) (by rw [ht.struct j hj])
  · have := count_local (p := holdsSlot) ht
      (fun i hi => by simp [holdsSlot, hfresh i hi]) hk
    have := h.inflight
    omega
  · have := count_local (p := holdsPush) ht
      (fun i hi => by simp [holdsPush, hfresh i hi]) hk
    have := h.pushInflight
    omega

/-! ### Sections -/

/-- A struct from the pool holds nothing. -/
theorem Accounted.of_pooled (hk : (s.struct k).owned = false) :
    s.Unregistered k ∧ s.recycles k = 0 ∧ (s.struct k).connDone = false ∧
      (s.struct k).inflightDone = false ∧ (s.struct k).pushed = false := by
  obtain ⟨hun, hrec, hconn⟩ := (hw.fit k).of_id_zero ((hw.fit k).pooled hk)
  exact ⟨hun, hrec, hconn, (h.slotted k).pooled hk⟩

theorem Accounted.newStream (hk : (s.struct k).owned = false) :
    { s.allocStream k with inflight := s.inflight + 1 }.Accounted := by
  obtain ⟨hun, hrec, hconn, hdone, hpushed⟩ := h.of_pooled hw hk
  refine h.local hw { touches_allocStream s k with } ?_ ?_ ?_ ?_
  · exact Nat.lt_of_lt_of_le (Nat.lt_succ_self k) (le_max_right _ _)
  · constructor
    · exact fun id hl => absurd hl (hun id)
    · intro hr
      exact absurd (by simpa [recycles, allocStream] using hrec) (Nat.ne_of_gt hr)
    · simp [allocStream, hconn]
    · simp [allocStream]
    · simp [allocStream, hpushed]
  · simp [allocStream, holdsSlot, hk, hpushed, hdone]
  · simp [allocStream, holdsPush, hpushed]

theorem Accounted.reservePushedStream
    (hk : (s.struct k).owned = false) (hid : id ≠ 0) : (s.reservePushedStream id k).Accounted := by
  obtain ⟨hun, hrec, hconn, hdone, hpushed⟩ := h.of_pooled hw hk
  have htouch : s.Touches (s.reservePushedStream id k) k :=
    (touches_allocStream s k).trans { touches_insert (s.allocStream k) id k _ with }
  refine h.local hw htouch ?_ ?_ ?_ ?_
  · exact Nat.lt_of_lt_of_le (Nat.lt_succ_self k) (le_max_right _ _)
  · constructor
    · simp [State.reservePushedStream, allocStream, hdone]
    · intro hr
      exact absurd (by simpa [recycles, State.reservePushedStream, allocStream] using hrec)
        (Nat.ne_of_gt hr)
    · simp [State.reservePushedStream, allocStream, hconn]
    · simp [State.reservePushedStream, allocStream]
    · simp [State.reservePushedStream, allocStream, hid]
  · simp [State.reservePushedStream, allocStream, holdsSlot, hk]
  · simp [State.reservePushedStream, allocStream, holdsPush, hk, hdone]

/-- The id goes to a stream that holds its slot. -/
theorem Accounted.assignStreamIDLocked (hid : (s.struct k).id = 0)
    (howned : (s.struct k).owned = true) (hdone : (s.struct k).inflightDone = false) :
    (s.assignStreamIDLocked k).Accounted := by
  obtain ⟨hun, hrec, hconn⟩ := (hw.fit k).of_id_zero hid
  have hodd := hw.odd
  have hne : s.nextID ≠ 0 := by omega
  rw [assignStreamIDLocked_eq hid]
  refine h.local hw { touches_insert s s.nextID k _ with } ((hw.fit k).size howned) ?_ ?_ ?_
  · constructor
    · simp [hdone]
    · intro hr
      exact absurd (by simpa [recycles] using hrec) (Nat.ne_of_gt hr)
    · simp [hconn]
    · simp [howned]
    · simp [hne]
  · simp [holdsSlot]
  · simp [holdsPush]

/-- The section that sets `inflightDone` on a registered stream counts down once. -/
theorem Accounted.evict (hl : s.streams.lookup id = some k) : (s.evict id k).Accounted := by
  have hfit := hw.fit k
  obtain ⟨-, -, howned⟩ := hfit.registered id hl
  have hdone := (h.slotted k).registered id hl
  have hsize := hfit.size howned
  have hun := hfit.unregistered_evict hl
  have hin : (s.struct k).pushed = false → 0 < s.inflight := by
    intro hp
    rw [h.inflight]
    exact Slots.count_pos hsize (by simp [holdsSlot, howned, hp, hdone])
  have hpush : (s.struct k).pushed = true → 0 < s.pushInflight := by
    intro hp
    rw [h.pushInflight]
    exact Slots.count_pos hsize (by simp [holdsPush, howned, hp, hdone])
  rw [evict_eq] at hun ⊢
  refine h.local hw { touches_modify s k fun t => { t with inflightDone := true } with
    streams := fun _ _ _ hl => (lookup_erase_iff.mp hl).2 } hsize ?_ ?_ ?_
  · constructor
    · exact fun i hi => absurd hi (hun i)
    · simp
    · simp
    · simp [howned]
    · simpa using (h.slotted k).pushed
  · cases hp : (s.struct k).pushed
    · have := hin hp
      simp [holdsSlot, howned, hp, hdone]
      omega
    · simp [holdsSlot, hp]
  · cases hp : (s.struct k).pushed
    · simp [holdsPush, hp]
    · have := hpush hp
      simp [holdsPush, howned, hp, hdone]
      omega

/-- A struct that has returned its slot may go on to be reset. -/
theorem Accounted.spawnRecycle (howned : (s.struct k).owned = true)
    (hdone : (s.struct k).inflightDone = true) : (s.spawn (.recycle k)).Accounted := by
  refine h.local hw (touches_spawnRecycle s k) ((hw.fit k).size howned) ?_ rfl rfl
  exact ⟨(h.slotted k).registered, fun _ => hdone, fun _ => hdone, (h.slotted k).pooled,
    (h.slotted k).pushed⟩

theorem Accounted.rendezvous (howned : (s.struct k).owned = true)
    (hdone : (s.struct k).inflightDone = true) : (s.rendezvous k).Accounted := by
  have hk := h.slotted k
  unfold State.rendezvous
  split_ifs
  · exact h
  · exact h.spawnRecycle hw howned hdone
  · refine h.local hw (touches_modify s k _) ((hw.fit k).size howned) ?_ ?_ ?_
    · exact ⟨by simpa using hk.registered, by simp [hdone], by simp [hdone],
        by simpa using hk.pooled, by simpa using hk.pushed⟩
    · simp [holdsSlot]
    · simp [holdsPush]

theorem Accounted.done (hl : s.streams.lookup id = some k) :
    ((s.evict id k).rendezvous k).Accounted := by
  obtain ⟨-, -, howned⟩ := (hw.fit k).registered id hl
  refine (h.evict hw hl).rendezvous (hw.evict id k) ?_ ?_
  · simpa [evict_eq] using howned
  · simp [evict_eq]

/-- The slot of a stream without an id. -/
theorem Accounted.releaseUnassignedInflight
    (hk : (s.struct k).inflightDone = false → (s.struct k).owned = true ∧ (s.struct k).id = 0) :
    (s.releaseUnassignedInflight k).Accounted := by
  unfold State.releaseUnassignedInflight
  split
  · exact h
  rename_i hne
  have hdone : (s.struct k).inflightDone = false := by simpa using hne
  obtain ⟨howned, hid⟩ := hk hdone
  have hsize := (hw.fit k).size howned
  -- pushed streams are reserved with their id
  have hpushed : (s.struct k).pushed = false := by
    by_contra hp
    exact (h.slotted k).pushed (by simpa using hp) hid
  have hpos : 0 < s.inflight := by
    rw [h.inflight]
    exact Slots.count_pos hsize (by simp [holdsSlot, howned, hpushed, hdone])
  refine h.local hw
    { touches_modify s k fun t => { t with inflightDone := true } with } hsize ?_ ?_ ?_
  · refine ⟨?_, by simp, by simp, by simp [howned], by simp [hpushed]⟩
    exact fun i hl => absurd hl (((hw.fit k).of_id_zero hid).1 i)
  · simp [holdsSlot, howned, hpushed, hdone]
    omega
  · simp [holdsPush, hpushed]

/-- The reset of a struct that has returned its slot. -/
theorem Accounted.resetForPool (hrec : 0 < s.recycles k) :
    ({ s with tasks := s.tasks.erase (.recycle k) }.resetForPool k).Accounted := by
  obtain ⟨howned, -, hun⟩ := (hw.fit k).recycles_pos hrec
  have hdone := (h.slotted k).recycled hrec
  refine h.local hw (touches_recycle s k _) ((hw.fit k).size howned) ?_ ?_ ?_
  · refine ⟨fun i hl => absurd hl (hun i), ?_, ?_, ?_, ?_⟩
    · simp [recycles, State.resetForPool, (hw.fit k).count_erase]
    all_goals simp [State.resetForPool]
  · simp [State.resetForPool, holdsSlot, hdone]
  · simp [State.resetForPool, holdsPush, hdone]

/-- A reader is still inside `recv`. -/
theorem Accounted.park (ht : .recycle k ∈ s.tasks) :
    ({ s with tasks := s.tasks.erase (.recycle k) }.modify k
      fun t => { t with recycleWanted := true }).Accounted := by
  have hk := h.slotted k
  obtain ⟨howned, -, -⟩ := (hw.fit k).recycles_pos (recycles_pos ht)
  have hdone := hk.recycled (recycles_pos ht)
  refine h.local hw (touches_recycle s k _) ((hw.fit k).size howned) ?_ ?_ ?_
  · exact ⟨by simpa using hk.registered, by simp [hdone], by simp [hdone],
      by simpa using hk.pooled, by simpa using hk.pushed⟩
  · simp [holdsSlot]
  · simp [holdsPush]

/-- Flags that no slot depends on. -/
theorem Accounted.mark (howned : (s.struct k).owned = true)
    {f : Stream → Stream} (hslot : (f (s.struct k)).slot = (s.struct k).slot)
    (hid : (f (s.struct k)).id = (s.struct k).id)
    (hconn : (f (s.struct k)).connDone = (s.struct k).connDone)
    (hwant : (f (s.struct k)).recycleWanted = (s.struct k).recycleWanted) :
    (s.modify k f).Accounted := by
  have hk := h.slotted k
  refine h.local hw (touches_modify s k f) ((hw.fit k).size howned) ?_ ?_ ?_
  · simp only [Stream.slot, Prod.mk.injEq] at hslot
    obtain ⟨ho, hp, hd⟩ := hslot
    constructor
    · simpa [hd] using hk.registered
    · simpa [hd, recycles, hwant] using hk.recycled
    · simpa [hd, hconn] using hk.connDone
    · simpa [ho, hd, hp] using hk.pooled
    · simpa [hp, hid] using hk.pushed
  · simp [holdsSlot_congr hslot]
  · simp [holdsPush_congr hslot]

theorem Accounted.close (howned : (s.struct k).owned = true) : (s.close k).Accounted := by
  have hwmark := hw.mark howned
  have hmark : (s.modify k fun t => { t with released := true, appClosed := true }).Accounted :=
    h.mark hw howned rfl rfl rfl rfl
  have hclosed : ((s.modify k fun t => { t with released := true, appClosed := true }).modify k
      fun t => { t with closed := true }).Accounted :=
    hmark.mark hwmark (by simpa using howned) rfl rfl rfl rfl
  have hdone := (h.slotted k).connDone
  unfold State.close
  simp only
  split_ifs with hc hboth hconn hconn
  · exact hmark
  · exact hmark.spawnRecycle hwmark (by simpa using howned) (by simpa using hdone hconn)
  · exact hmark
  · exact hclosed.spawnRecycle (hwmark.flags rfl) (by simpa using howned) (by simpa using hdone hconn)
  · exact hclosed.keeps (fun _ => { recycle := by simp }) (fun _ => rfl) rfl rfl rfl

end Changes

/-! ### Runs -/

variable {op : Op}

theorem Accounted.neutral (h : s.Accounted) (hn : Neutral op s s') : s'.Accounted :=
  h.keeps hn.keeps hn.slot hn.size hn.inflight hn.pushInflight

theorem Timely.owned (h : s.Timely op) : s.Owned op := by
  unfold Owned
  split
  · exact fun hid => (h hid).1
  · trivial

theorem Timely.neutral (h : s.Timely op) (hn : Neutral op s s') : s'.Timely op := by
  have hdone : ∀ k, (s'.struct k).inflightDone = (s.struct k).inflightDone := fun k =>
    congrArg (fun p => p.2.2) (hn.slot k)
  unfold Timely
  split
  · rw [hn.streamID, hn.owned, hdone]
    exact h
  · rw [hn.streamID, hn.owned, hdone]
    exact h
  · trivial

theorem Accounted.section (h : s.Accounted) (hw : s.WF) (hcond : s.Timely op)
    (hs : Section s op s') : s'.Accounted := by
  cases hs with
  | idle => exact h
  | newStream hj => exact h.newStream hw hj
  | headers hid => exact h.assignStreamIDLocked hw hid (hcond hid).1 (hcond hid).2
  | done hl => exact h.done hw hl
  | evict hl => exact h.evict hw hl
  | releaseUnassigned => exact h.releaseUnassignedInflight hw hcond
  | park ht => exact h.park hw ht
  | resetForPool hrec => exact h.resetForPool hw hrec
  | close howned _ => exact h.close hw howned
  | reservePushed hid hk => exact h.reservePushedStream hw hk hid

theorem Accounted.step (h : s.Accounted) (hw : s.WF) (hcond : s.Timely op)
    (hs : s.step op = some s') : s'.Accounted := by
  obtain ⟨s₀, s₁, hbefore, hsec, hafter⟩ := does_step hw hs
  exact ((h.neutral hbefore).section (hw.neutral hbefore) (hcond.neutral hbefore) hsec).neutral
    hafter

/-- What every step keeps. -/
def Inv (s : State) : Prop := s.WF ∧ s.Accounted

theorem Inv.step (h : s.Inv) (hcond : s.Timely op) (hs : s.step op = some s') : s'.Inv :=
  ⟨h.1.step hcond.owned hs, h.2.step h.1 hcond hs⟩

theorem accounted_init : init.Accounted :=
  ⟨fun k => by constructor <;> simp [init, recycles, AList.lookup_empty], rfl, rfl⟩

end State

/-- As long as no `Close` comes between the gate of `SendHeaders` and its write
section, nor the other way round, the accounting is exact in every state. -/
theorem exact_of_timely {s : State} (h : system.ReachableBy State.Timely s) : s.Exact := by
  have hinv : s.Inv := h.invariant ⟨State.wf_init, State.accounted_init⟩
    fun _ _ _ hs hcond hstep => hs.step hcond hstep
  exact ⟨hinv.2.inflight, hinv.2.pushInflight, fun id k => (hinv.2.slotted k).registered id⟩

/-- A request, its response and a push, up to the registry being empty again. -/
def cleanRun : List Op :=
  [.newStream 100, .run (.newStream 100) true 0, .sendHeaders 0 1 false,
    .run (.headers 0 false) true 0, .promise 2 100, .run (.reservePushed 2 100) true 1,
    .sendData 0 1 true, .run (.data 0 true) true 0, .run (.endLocal 0) true 0,
    .run (.markStreamDone 1) true 0, .frame 1 true false, .run (.deliver 0 1 true false) true 0,
    .run (.markStreamDone 1) true 0, .close 0 1, .run (.recycle 0) true 0, .newStream 100,
    .run (.newStream 100) true 0, .close 0 2, .run (.writeRSTStream 0) true 0,
    .run (.releaseUnassigned 0) true 0]

theorem exact_of_timely_cleanRun : ∃ s, system.run system.init cleanRun = some s ∧ s.Exact ∧
    s.inflight = 0 ∧ s.pushInflight = 1 ∧ (s.struct 0).gen = 2 := by
  have hmeets : system.RunMeets State.Timely system.init cleanRun := by decide +kernel
  apply System.exists_run_and cleanRun
  · intro s hs
    exact exact_of_timely (System.reachableBy_run .init hmeets hs)
  · decide +kernel

/-- `Close` between the two sections of `SendHeaders`: the slot is returned and the
stream is registered all the same. -/
def closeDuringHeaders : List Op :=
  [.newStream 100, .run (.newStream 100) true 0, .sendHeaders 0 1 false, .close 0 1,
    .run (.writeRSTStream 0) true 0, .run (.releaseUnassigned 0) true 0,
    .run (.headers 0 false) true 0]

theorem registered_without_slot : ∃ s, system.Reachable s ∧ ¬ s.Exact := by
  have hrun : ∃ s, system.Reachable s ∧ s.streams.lookup 1 = some 0 ∧
      (s.struct 0).inflightDone = true := by
    apply System.exists_reachable closeDuringHeaders
    decide +kernel
  obtain ⟨s, hs, hl, hdone⟩ := hrun
  refine ⟨s, hs, ?_⟩
  intro hexact
  rw [hexact.registered 1 0 hl] at hdone
  cases hdone

end Conn.Registry
