import PoseidonHttp.Conn.Registry

/-!
# GOAWAY and the streams above it

`onGoAwayReceived` lowers the limit, then takes a snapshot of the registered streams
above it, then ends them one by one. A stream above the limit is therefore ended,
or one of the snapshot still to be ended, or registered before a snapshot that is
still to be taken (`Covered`).

Nothing else ends it. `NewStream` refuses once the GOAWAY is in, but the id is assigned
later, by the section that writes HEADERS, and that section does not look.
-/

namespace Conn.Registry

open Transition

/-- A part of `onGoAwayReceived`. -/
def Task.isGoAway : Task → Bool
  | .sweep _ | .victim _ _ => true
  | _ => false

/-- A snapshot to come that takes in the id. -/
def Task.sweeps (id : ℕ) : Task → Bool
  | .sweep last => last < id
  | _ => false

namespace State

/-- With a GOAWAY in and handled, the limit is the least one received and every
registered stream of the client's above it is ended. -/
def NoneAbove (s : State) : Prop :=
  s.goAwayReceived = true → (∀ t ∈ s.tasks, t.isGoAway = false) →
    (s.goAwayLastStreamID ∈ s.goAways ∧ ∀ l ∈ s.goAways, s.goAwayLastStreamID ≤ l) ∧
    ∀ id k, s.streams.lookup id = some k → (s.struct k).pushed = false →
      s.goAwayLastStreamID < id → s.Ended k

/-- An id is assigned to a stream that is still handed out, and not above the limit of
a GOAWAY whose snapshot was taken. -/
def Admitted (s : State) : Op → Prop
  | .run (.headers k _) _ _ => (s.struct k).id = 0 → (s.struct k).owned = true ∧
    (s.goAwayReceived = false ∨ s.nextID ≤ s.goAwayLastStreamID ∨ ∃ t ∈ s.tasks, t.sweeps s.nextID)
  | _ => True

instance (s : State) : ∀ op, Decidable (s.Admitted op)
  | .run (.headers k _) _ _ => inferInstanceAs (Decidable ((s.struct k).id = 0 →
      (s.struct k).owned = true ∧ (s.goAwayReceived = false ∨
        s.nextID ≤ s.goAwayLastStreamID ∨ ∃ t ∈ s.tasks, t.sweeps s.nextID)))
  | op => by
    unfold Admitted
    split <;> infer_instance

/-- The stream is ended or will be. -/
def Covered (s : State) (id k : ℕ) : Prop :=
  s.Ended k ∨ .victim k id ∈ s.tasks ∨ ∃ t ∈ s.tasks, t.sweeps id

structure Bounded (s : State) : Prop where
  none : s.goAwayReceived = false → s.goAways = []
  least : s.goAwayReceived = true →
    s.goAwayLastStreamID ∈ s.goAways ∧ ∀ l ∈ s.goAways, s.goAwayLastStreamID ≤ l
  above : s.goAwayReceived = true → ∀ id k, s.streams.lookup id = some k →
    (s.struct k).pushed = false → s.goAwayLastStreamID < id → s.Covered id k

variable {s s' : State} {k id : ℕ} {op : Op}

/-! ### Sections -/

/-- A struct keeps what the limit is about. -/
structure Stays (s s' : State) (k : ℕ) : Prop where
  ended : s.Ended k → s'.Ended k
  pushed : (s'.struct k).pushed = (s.struct k).pushed

theorem Stays.refl (s : State) (k : ℕ) : s.Stays s k := ⟨fun h => h, rfl⟩

theorem Stays.trans {s₁ s₂ : State} (h : s.Stays s₁ k) (h' : s₁.Stays s₂ k) : s.Stays s₂ k :=
  ⟨fun he => h'.ended (h.ended he), h'.pushed.trans h.pushed⟩

/-- One struct is changed, and not back to open. -/
theorem stays_update {j : ℕ} {t : Stream} (hs : s'.struct = Function.update s.struct j t)
    (hlocal : (s.struct j).localEnded = true → t.localEnded = true := by exact fun h => h)
    (hremote : (s.struct j).remoteEnded = true → t.remoteEnded = true := by exact fun h => h)
    (hpushed : t.pushed = (s.struct j).pushed := by rfl)
    (hclosed : (s.struct j).closed = true → t.closed = true := by exact fun h => h) : s.Stays s' k := by
  by_cases hk : k = j
  · subst hk
    constructor
    · rintro ⟨hl, hr, hc⟩
      simpa [Ended, hs] using ⟨hlocal hl, hremote hr, hclosed hc⟩
    · simpa [hs] using hpushed
  · exact ⟨by simp [Ended, hs, hk], by simp [hs, hk]⟩

theorem stays_evict (i j : ℕ) : s.Stays (s.evict i j) k := by
  rw [evict_eq]
  exact stays_update rfl

theorem stays_rendezvous (j : ℕ) : s.Stays (s.rendezvous j) k := by
  unfold State.rendezvous
  split_ifs
  · exact .refl s k
  · exact ⟨fun h => h, rfl⟩
  · exact stays_update rfl

theorem stays_close (j : ℕ) : s.Stays (s.close j) k := by
  have hmark : s.Stays (s.modify j fun t => { t with released := true, appClosed := true }) k :=
    stays_update rfl
  have hclosed : s.Stays ((s.modify j fun t => { t with released := true, appClosed := true }).modify
      j fun t => { t with closed := true }) k :=
    hmark.trans (stays_update rfl id id rfl fun _ => rfl)
  unfold State.close
  simp only
  split_ifs
  · exact hmark
  · exact ⟨hmark.ended, hmark.pushed⟩
  · exact hmark
  · exact ⟨hclosed.ended, hclosed.pushed⟩
  · exact ⟨hclosed.ended, hclosed.pushed⟩

theorem streams_rendezvous (j : ℕ) : (s.rendezvous j).streams = s.streams := by
  unfold State.rendezvous
  split_ifs <;> rfl

theorem streams_close (j : ℕ) : (s.close j).streams = s.streams := by
  unfold State.close
  simp only
  split_ifs <;> rfl

theorem stays_of_struct (hs : s'.struct k = s.struct k) : s.Stays s' k :=
  ⟨by simp [Ended, hs], by simp [hs]⟩

/-- A stream that is registered after a section was so before and is no more open, or
the section gave it its id, or it is pushed. -/
theorem Section.registered (hw : s.WF) (hs : Section s op s') (hl : s'.streams.lookup id = some k) :
    (s.streams.lookup id = some k ∧ s.Stays s' k) ∨
      (∃ endStream ok j, op = .run (.headers k endStream) ok j) ∧ (s.struct k).id = 0 ∧
        id = s.nextID ∨
      (s'.struct k).pushed = true := by
  cases hs with
  | idle => exact .inl ⟨hl, .refl _ k⟩
  | newStream hj => exact .inl ⟨hl, stays_update rfl⟩
  | @headers k' j endStream ok hid =>
    rw [assignStreamIDLocked_eq hid] at hl ⊢
    rcases lookup_insert_iff.mp hl with ⟨rfl, rfl⟩ | ⟨-, hl⟩
    · exact .inr (.inl ⟨⟨endStream, ok, j, rfl⟩, hid, rfl⟩)
    · exact .inl ⟨hl, stays_update rfl⟩
  | done =>
    rw [streams_rendezvous, evict_eq] at hl
    exact .inl ⟨(lookup_erase_iff.mp hl).2, (stays_evict _ _).trans (stays_rendezvous _)⟩
  | evict =>
    rw [evict_eq] at hl
    exact .inl ⟨(lookup_erase_iff.mp hl).2, stays_evict _ _⟩
  | releaseUnassigned =>
    left
    unfold State.releaseUnassignedInflight at hl ⊢
    split_ifs at hl ⊢
    · exact ⟨hl, .refl s k⟩
    · exact ⟨hl, stays_update rfl⟩
  | park ht => exact .inl ⟨hl, stays_update rfl⟩
  | @resetForPool _ j hrec =>
    left
    have hun := ((hw.fit j).recycles_pos hrec).2.2
    have hne : k ≠ j := fun hk => hun id (hk ▸ hl)
    exact ⟨hl, stays_of_struct (by simp [State.resetForPool, hne])⟩
  | close howned hrel =>
    rw [streams_close] at hl
    exact .inl ⟨hl, stays_close _⟩
  | @reservePushed _ i j hid hj =>
    rcases lookup_insert_iff.mp hl with ⟨rfl, rfl⟩ | ⟨-, hl⟩
    · right
      right
      simp [State.reservePushedStream]
    · left
      have hun := ((hw.fit j).of_id_zero ((hw.fit j).pooled hj)).1
      have hne : k ≠ j := fun hk => hun id (hk ▸ hl)
      exact ⟨hl, stays_of_struct (by simp [State.reservePushedStream, State.allocStream, hne])⟩

/-- A section leaves GOAWAY and its tasks alone. -/
theorem Section.goAway (hs : Section s op s') :
    s'.goAwayReceived = s.goAwayReceived ∧ s'.goAwayLastStreamID = s.goAwayLastStreamID ∧
      s'.goAways = s.goAways ∧ ∀ t ∈ s.tasks, t.isGoAway = true → t ∈ s'.tasks := by
  cases hs with
  | idle => simp +contextual
  | newStream hj => simp +contextual [State.allocStream]
  | headers hid => simp +contextual [assignStreamIDLocked_eq hid]
  | done =>
    unfold State.rendezvous
    split_ifs <;> simp +contextual [evict_eq]
  | evict => simp +contextual [evict_eq]
  | releaseUnassigned =>
    unfold State.releaseUnassignedInflight
    split_ifs <;> simp +contextual
  | park | resetForPool =>
    have hmem : ∀ j, ∀ t ∈ s.tasks, t.isGoAway = true → t ∈ s.tasks.erase (.recycle j) := by
      intro j t ht hgo
      refine (List.mem_erase_of_ne ?_).mpr ht
      rintro rfl
      cases hgo
    simpa [State.resetForPool] using hmem _
  | close howned hrel =>
    unfold State.close
    simp only
    split_ifs <;> simp +contextual
  | reservePushed hid hk => simp +contextual [State.reservePushedStream, State.allocStream]

/-! ### Runs -/

/-- The task of a GOAWAY is there until it is run. -/
theorem Does.tasks (hs : s.Does op s') {t : Task} (ht : t ∈ s.tasks) (hgo : t.isGoAway = true)
    (hop : ∀ ok j, op ≠ .run t ok j) : t ∈ s'.tasks := by
  rcases hs with ⟨s₀, s₁, hbefore, hsec, hafter⟩
  exact hafter.tasks t (hsec.goAway.2.2.2 t (hbefore.tasks t ht hop) hgo) hop

theorem Does.goAway (hs : s.Does op s') (hop : ∀ last, op ≠ .goAway last) :
    s'.goAwayReceived = s.goAwayReceived ∧ s'.goAwayLastStreamID = s.goAwayLastStreamID ∧
      s'.goAways = s.goAways := by
  rcases hs with ⟨s₀, s₁, hbefore, hsec, hafter⟩
  obtain ⟨hr₀, hl₀, hg₀⟩ := hbefore.goAway hop
  obtain ⟨hr₁, hl₁, hg₁, -⟩ := hsec.goAway
  obtain ⟨hr₂, hl₂, hg₂⟩ := hafter.goAway hop
  exact ⟨hr₂.trans (hr₁.trans hr₀), hl₂.trans (hl₁.trans hl₀), hg₂.trans (hg₁.trans hg₀)⟩

theorem Neutral.pushed (h : Neutral op s s') (k : ℕ) :
    (s'.struct k).pushed = (s.struct k).pushed :=
  congrArg (fun p => p.2.1) (h.slot k)

theorem Neutral.stays (h : Neutral op s s') (k : ℕ) : s.Stays s' k := ⟨h.ended k, h.pushed k⟩

/-- A stream of the client's that is registered after a step was so before, or the step
gave it its id. -/
theorem Does.registered (hw : s.WF) (hs : s.Does op s') (hl : s'.streams.lookup id = some k)
    (hp : (s'.struct k).pushed = false) :
    (s.streams.lookup id = some k ∧ s.Stays s' k) ∨
      (∃ endStream ok j, op = .run (.headers k endStream) ok j) ∧ (s.struct k).id = 0 ∧
        id = s.nextID := by
  rcases hs with ⟨s₀, s₁, hbefore, hsec, hafter⟩
  rw [hafter.streams] at hl
  rcases hsec.registered (hw.neutral hbefore) hl with ⟨hold, hstays⟩ | ⟨hop, hid, hnext⟩ | hpushed
  · left
    rw [hbefore.streams] at hold
    exact ⟨hold, ((hbefore.stays k).trans hstays).trans (hafter.stays k)⟩
  · right
    exact ⟨hop, hbefore.streamID k ▸ hid, hbefore.nextID ▸ hnext⟩
  · rw [hafter.pushed, hpushed] at hp
    cases hp

theorem Admitted.owned (h : s.Admitted op) : s.Owned op := by
  unfold Owned
  split
  · exact fun hid => (h hid).1
  · trivial

/-- The snapshot takes in every registered stream above its limit. -/
theorem mem_sweep {last : ℕ} (hl : s.streams.lookup id = some k) (hlt : last < id) :
    .victim k id ∈ (s.sweep last).tasks := by
  have hmem : (⟨id, k⟩ : Sigma fun _ : ℕ => ℕ) ∈ s.streams.entries :=
    AList.mem_lookup_iff.mp hl
  refine List.mem_append_left _ (List.mem_map.mpr ⟨_, List.mem_filter.mpr ⟨hmem, ?_⟩, rfl⟩)
  simpa using hlt

/-- What covers a stream goes on covering it: a pending task leaves it ended or in the
snapshot when it runs. -/
theorem Covered.step (h : s.Covered id k) (hw : s.WF) (hs : s.step op = some s')
    (hl : s.streams.lookup id = some k) (hstays : s.Stays s' k) : s'.Covered id k := by
  have hdoes := does_step hw hs
  rcases h with hended | hvictim | ⟨t, ht, hsweeps⟩
  · exact .inl (hstays.ended hended)
  · by_cases hop : ∃ ok j, op = .run (.victim k id) ok j
    · obtain ⟨ok, j, rfl⟩ := hop
      -- registered under its id, so not recycled since the snapshot
      have hid := ((hw.fit k).registered id hl).1
      simp only [State.step, hvictim, if_true, State.exec, hid, Option.some.injEq] at hs
      left
      rw [← hs]
      simp [Ended, endWithReset, hid]
    · right
      left
      exact hdoes.tasks hvictim rfl fun ok j heq => hop ⟨ok, j, heq⟩
  · cases t with
    | sweep last =>
      have hlt : last < id := by simpa [Task.sweeps] using hsweeps
      by_cases hop : ∃ ok j, op = .run (.sweep last) ok j
      · obtain ⟨ok, j, rfl⟩ := hop
        simp only [State.step, ht, if_true, State.exec, Option.some.injEq] at hs
        right
        left
        rw [← hs]
        exact mem_sweep hl hlt
      · right
        right
        exact ⟨_, hdoes.tasks ht rfl fun ok j heq => hop ⟨ok, j, heq⟩, hsweeps⟩
    | _ => cases hsweeps

theorem Bounded.onGoAwayReceived (h : s.Bounded) (last : ℕ) : (s.onGoAwayReceived last).Bounded := by
  unfold State.onGoAwayReceived
  refine ⟨fun hr => (by cases hr), fun _ => ?_, fun _ id k _ _ hlt => ?_⟩
  · simp only [spawn_goAwayLastStreamID, spawn_goAways, List.mem_cons, forall_eq_or_imp]
    by_cases hr : s.goAwayReceived = true
    · obtain ⟨hmem, hle⟩ := h.least hr
      by_cases hlt : s.goAwayLastStreamID < last
      · simp only [hr, hlt, and_self, if_true]
        exact ⟨.inr hmem, Nat.le_of_lt hlt, hle⟩
      · simp only [hlt, and_false, if_false]
        exact ⟨.inl trivial, le_rfl, fun l hl => Nat.le_trans (by omega) (hle l hl)⟩
    · rw [h.none (by simpa using hr)]
      simp [hr]
  · -- the snapshot is still to be taken
    exact .inr (.inr ⟨_, List.mem_cons_self, by simpa [Task.sweeps] using hlt⟩)

theorem Bounded.step (h : s.Bounded) (hw : s.WF) (hcond : s.Admitted op)
    (hs : s.step op = some s') : s'.Bounded := by
  by_cases hop : ∃ last, op = .goAway last
  · obtain ⟨last, rfl⟩ := hop
    exact Option.some.inj hs ▸ h.onGoAwayReceived last
  have hdoes := does_step hw hs
  obtain ⟨hr, hl, hg⟩ := hdoes.goAway fun last heq => hop ⟨last, heq⟩
  refine ⟨by rw [hr, hg]; exact h.none, by rw [hr, hl, hg]; exact h.least, ?_⟩
  rw [hr, hl]
  intro hrec id k hlook hpushed hlt
  rcases hdoes.registered hw hlook hpushed with ⟨hold, hstays⟩ | ⟨⟨e, ok, j, rfl⟩, hid, rfl⟩
  · exact (h.above hrec id k hold (hstays.pushed ▸ hpushed) hlt).step hw hs hold hstays
  -- the id was just assigned
  rcases (hcond hid).2 with hnone | hle | ⟨t, ht, hsweeps⟩
  · rw [hrec] at hnone
    cases hnone
  · omega
  · cases t with
    | sweep last =>
      exact .inr (.inr ⟨_, hdoes.tasks ht rfl (by simp), hsweeps⟩)
    | _ => cases hsweeps

/-- What every step keeps. -/
def Limited (s : State) : Prop := s.WF ∧ s.Bounded

theorem limited_init : init.Limited :=
  ⟨wf_init, fun _ => rfl, fun h => (by cases h), fun h => (by cases h)⟩

end State

/-- As long as no id above the limit is assigned after the snapshot, no stream above it
stays open. -/
theorem noneAbove_of_admitted {s : State} (h : system.ReachableBy State.Admitted s) :
    s.NoneAbove := by
  have hinv : s.Limited := h.invariant State.limited_init
    fun _ _ _ hs hcond hstep => ⟨hs.1.step hcond.owned hstep, hs.2.step hs.1 hcond hstep⟩
  intro hrec hdone
  refine ⟨hinv.2.least hrec, ?_⟩
  intro id k hl hp hlt
  rcases hinv.2.above hrec id k hl hp hlt with hended | hvictim | ⟨t, ht, hsweeps⟩
  · exact hended
  · cases hdone _ hvictim
  · -- the call is over
    have hgo := hdone t ht
    cases t with
    | sweep last => cases hgo
    | _ => cases hsweeps

/-- Two requests, the second of them between two GOAWAYs that refuse it. -/
def refusedRun : List Op :=
  [.newStream 100, .newStream 100, .run (.newStream 100) true 0, .run (.newStream 100) true 1,
    .sendHeaders 0 1 false, .run (.headers 0 false) true 0, .sendHeaders 1 1 false, .goAway 7,
    .run (.headers 1 false) true 0, .run (.sweep 7) true 0, .goAway 1, .run (.sweep 1) true 0,
    .run (.victim 1 3) true 0]

theorem noneAbove_of_admitted_refusedRun :
    ∃ s, system.run system.init refusedRun = some s ∧ s.NoneAbove ∧ s.goAwayLastStreamID = 1 ∧
      s.streams.lookup 3 = some 1 ∧ s.Ended 1 := by
  have hmeets : system.RunMeets State.Admitted system.init refusedRun := by decide +kernel
  apply System.exists_run_and refusedRun
  · intro s hs
    exact noneAbove_of_admitted (System.reachableBy_run .init hmeets hs)
  · decide +kernel

/-- `NewStream` before the GOAWAY and HEADERS after its snapshot. -/
def lateHeaders : List Op :=
  [.newStream 100, .run (.newStream 100) true 0, .goAway 0, .run (.sweep 0) true 0,
    .sendHeaders 0 1 false, .run (.headers 0 false) true 0]

theorem late_headers_stay_open : ∃ s, system.Reachable s ∧ ¬ s.NoneAbove := by
  have hrun : ∃ s, system.Reachable s ∧ s.goAwayReceived = true ∧
      (∀ t ∈ s.tasks, t.isGoAway = false) ∧ s.streams.lookup 1 = some 0 ∧
      (s.struct 0).pushed = false ∧ s.goAwayLastStreamID < 1 ∧ ¬ s.Ended 0 := by
    apply System.exists_reachable lateHeaders
    decide +kernel
  obtain ⟨s, hs, hrec, hdone, hl, hp, hlt, hopen⟩ := hrun
  refine ⟨s, hs, ?_⟩
  intro hnone
  exact hopen ((hnone hrec hdone).2 1 0 hl hp hlt)

end Conn.Registry
