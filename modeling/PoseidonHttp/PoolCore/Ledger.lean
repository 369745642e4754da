import PoseidonHttp.PoolCore.Pool

/-!
# The pool's books

A pool is a desk that lends out connections: `Pool.desk` forgets the clock, the cursor and the
metrics. What a handler does is a sequence of moves of the desk, and a connection is closed by
the open pool only when nobody uses it.
-/

namespace PoolCore

open Lending Transition

/-- A record as an item. -/
def ManagedConn.item (mc : ManagedConn) : Item := ⟨mc.c.isAlive, mc.c.closed, mc.active, mc.streamCap⟩

def Event.view : Event → Lending.Event
  | .granted c mc => .lent c mc.item
  | .closed c mc _ byClose => .closed c mc.item byClose

/-- The event is a closing, which `ConnsClosed` counts. -/
def Event.isClosing : Event → Bool
  | .granted _ _ => false
  | .closed _ _ _ _ => true

/-- Not out on any lease. -/
def Idle (it : Item) : Prop := it.load = 0

namespace Pool

/-- The pool as a desk. -/
def desk (p : Pool) : Desk AcquireErr where
  cap := p.opts.maxConnsPerHost
  items := p.mcs.map ManagedConn.item
  shelf := p.conns
  queue := p.waiters
  coming := p.dialing
  clients := p.callers
  returns := p.releaseCh
  shut := p.closed
  log := p.log.map Event.view

/-- Closings on record. -/
def closings (p : Pool) : ℕ := p.log.countP Event.isClosing

/-- From one state to another as an actor works: moves of the desk, with the dials and the
closings counted. `spare` says what may be closed while the pool is open. -/
structure Moves (spare : Item → Prop) (p p' : Pool) : Prop where
  steps : Desk.Steps spare p.desk p'.desk
  dials : p'.inFlightDials - p'.dialing = p.inFlightDials - p.dialing
  counted : (p'.connsClosed : ℤ) - p'.closings = p.connsClosed - p.closings
  opts : p'.opts = p.opts
  closed : p'.closed = p.closed

/-- The books are in order. -/
structure Kept (spare : Item → Prop) (p : Pool) : Prop where
  sound : p.desk.Sound spare
  cap : 0 < p.opts.maxConnsPerHost
  dials : p.closed = false → p.inFlightDials = p.dialing
  counted : p.connsClosed = p.closings

/-- The actor of this pool closes what is idle. -/
abbrev Runs (p p' : Pool) : Prop := Moves Idle p p'

abbrev Books (p : Pool) : Prop := Kept Idle p

variable {spare : Item → Prop}

theorem Moves.refl (p : Pool) : Moves spare p p := ⟨.refl, rfl, rfl, rfl, rfl⟩

theorem Moves.trans {p q r : Pool} (h : Moves spare p q) (h' : Moves spare q r) : Moves spare p r :=
  ⟨.trans h.steps h'.steps, h'.dials.trans h.dials, h'.counted.trans h.counted,
    h'.opts.trans h.opts, h'.closed.trans h.closed⟩

variable {rest : List ℕ} {op : Op} {p' : Pool} {c n start : ℕ} {p : Pool}

theorem Moves.sound (h : Moves spare p p') (hp : p.desk.Sound spare) :
    p'.desk.Sound spare :=
  Desk.Steps.sound h.steps hp

theorem Moves.books (h : Moves spare p p') (hp : p.Kept spare) : p'.Kept spare where
  sound := h.sound hp.sound
  cap := by
    rw [h.opts]
    exact hp.cap
  dials := by
    intro hopen
    have hd := hp.dials (h.closed ▸ hopen)
    have hdiff := h.dials
    omega
  counted := by
    have hc := hp.counted
    have hdiff := h.counted
    omega

variable {p : Pool}

/-! ### Records -/

theorem getElem?_mcs (h : c < p.mcs.length) : p.mcs[c]? = some (p.mc c) := by
  rw [Pool.mc, List.getElem?_eq_getElem h]
  rfl

theorem item_of_mem (h : p.desk.Sound spare) (hc : c ∈ p.conns) :
    p.desk.items[c]? = some (p.mc c).item := by
  have hlt : c < p.desk.items.length := h.shelved c hc
  simp only [desk, List.length_map] at hlt
  simp [desk, getElem?_mcs hlt]

/-- A change of a record is the change of an item that looks the same. -/
theorem desk_setMc (p : Pool) (c : ℕ) {f : ManagedConn → ManagedConn} {k : Item → Item}
    (hf : ∀ mc, (f mc).item = k mc.item) :
    (p.setMc c f).desk = { p.desk with items := p.desk.items.modify c k } := by
  simp only [desk, setMc]
  rw [Modify.map_modify hf]

theorem mc_setMc (p : Pool) (c k : ℕ) (f : ManagedConn → ManagedConn) (hk : k < p.mcs.length) :
    (p.setMc c f).mc k = if c = k then f (p.mc k) else p.mc k := by
  simp only [Pool.mc, setMc, List.getElem?_modify]
  rw [List.getElem?_eq_getElem hk]
  by_cases h : c = k <;> simp [h]

/-! ### Picking -/

/-- A connection that a request may have: alive, and below its stream limit. -/
def Admits (p : Pool) (c : ℕ) : Prop :=
  (p.mc c).c.isAlive = true ∧ (p.mc c).active < (p.mc c).streamCap

/-- The pool with another cursor. -/
def withCursor (p : Pool) (k : ℕ) : Pool := { p with pickCursor := k }

/-- The place a position of the loop stands for. -/
def place (p : Pool) (start k : ℕ) : ℕ := p.conns[(start + k) % p.conns.length]?.getD 0

/-- What the loop may find over the positions `ks`: what it had found, or a connection at one of
them that takes a request, and nothing only when there is none. -/
structure Picked (p : Pool) (start : ℕ) (ks : List ℕ) (best : Option ℕ) (r : Option ℕ × Pool) :
    Prop where
  cursor : ∃ k, r.2 = p.withCursor k
  found : ∀ c, r.1 = some c → best = some c ∨ ∃ k ∈ ks, c = p.place start k ∧ p.Admits c
  missed : r.1 = none → best = none ∧ ∀ k ∈ ks, ¬ p.Admits (p.place start k)

/-- A position that is passed over adds nothing. -/
theorem Picked.skip {k : ℕ} {ks : List ℕ} {best : Option ℕ} {r : Option ℕ × Pool}
    (h : p.Picked start ks best r) (hk : best = none → ¬ p.Admits (p.place start k)) :
    p.Picked start (k :: ks) best r where
  cursor := h.cursor
  found := by
    intro c hc
    rcases h.found c hc with hb | ⟨j, hj, hadmits⟩
    · exact .inl hb
    · exact .inr ⟨j, List.mem_cons_of_mem k hj, hadmits⟩
  missed := by
    intro hc
    rcases h.missed hc with ⟨hb, hall⟩
    exact ⟨hb, List.forall_mem_cons.mpr ⟨hk hb, hall⟩⟩

/-- A position that takes a request becomes the best. -/
theorem Picked.better {k : ℕ} {ks : List ℕ} {best : Option ℕ} {r : Option ℕ × Pool}
    (h : p.Picked start ks (some (p.place start k)) r) (hk : p.Admits (p.place start k)) :
    p.Picked start (k :: ks) best r where
  cursor := h.cursor
  found := by
    intro c hc
    rcases h.found c hc with hb | ⟨j, hj, hadmits⟩
    · cases hb
      exact .inr ⟨k, List.mem_cons_self, rfl, hk⟩
    · exact .inr ⟨j, List.mem_cons_of_mem k hj, hadmits⟩
  missed := by
    intro hc
    cases (h.missed hc).1

theorem pickLoop_picked (p : Pool) (start : ℕ) (ks : List ℕ) (best : Option ℕ) :
    p.Picked start ks best (p.pickLoop start ks best) := by
  induction ks generalizing best with
  | nil => exact ⟨⟨p.pickCursor, rfl⟩, fun c hc => .inl hc, fun h => ⟨h, by simp⟩⟩
  | cons k ks ih =>
    simp only [pickLoop]
    split_ifs with hdead hfull hidle
    · refine (ih best).skip fun _ hadmits => ?_
      rw [Bool.not_eq_true'] at hdead
      cases hadmits.1.symm.trans hdead
    · exact (ih best).skip fun _ hadmits => absurd hadmits.2 (Int.not_lt.mpr hfull)
    all_goals have hadmits : p.Admits (p.place start k) :=
      ⟨by simpa [place] using hdead, Int.not_le.mp hfull⟩
    · -- an idle connection ends the loop
      refine ⟨⟨_, rfl⟩, ?_, by simp⟩
      intro c hc
      cases hc
      exact .inr ⟨k, List.mem_cons_self, rfl, hadmits⟩
    · cases best with
      | none => exact (ih _).better hadmits
      | some b =>
        dsimp only
        split_ifs
        · exact (ih _).better hadmits
        · exact (ih _).skip (by simp)

/-- Every connection is at some position of the loop. -/
theorem exists_place (p : Pool) (hstart : start < p.conns.length) (hc : c ∈ p.conns) :
    ∃ k < p.conns.length, p.place start k = c := by
  rcases List.mem_iff_getElem.mp hc with ⟨j, hj, rfl⟩
  have hplace : ∀ k, (start + k) % p.conns.length = j → p.place start k = p.conns[j] := by
    intro k hk
    simp [place, hk, List.getElem?_eq_getElem hj]
  rcases Nat.lt_or_ge j start with hlt | hge
  · refine ⟨j + p.conns.length - start, by omega, hplace _ ?_⟩
    have heq : start + (j + p.conns.length - start) = j + p.conns.length := by omega
    rw [heq, Nat.add_mod_right, Nat.mod_eq_of_lt hj]
  · refine ⟨j - start, by omega, hplace _ ?_⟩
    rw [Nat.add_sub_of_le hge, Nat.mod_eq_of_lt hj]

theorem place_mem (p : Pool) (start k : ℕ) (h : 0 < p.conns.length) :
    p.place start k ∈ p.conns := by
  have hlt := Nat.mod_lt (start + k) h
  rw [place, List.getElem?_eq_getElem hlt]
  exact List.getElem_mem hlt

/-- `PickLeastLoaded` finds a connection that takes a request if there is one. -/
theorem pickLeastLoaded_spec (p : Pool) :
    (∃ k, p.pickLeastLoaded.2 = p.withCursor k) ∧
    (∀ c, p.pickLeastLoaded.1 = some c → c ∈ p.conns ∧ p.Admits c) ∧
    (p.pickLeastLoaded.1 = none → ∀ c ∈ p.conns, ¬ p.Admits c) := by
  unfold pickLeastLoaded
  dsimp only
  split_ifs with hzero
  · refine ⟨⟨p.pickCursor, rfl⟩, by simp, fun _ c hc => ?_⟩
    rw [List.length_eq_zero_iff.mp hzero] at hc
    cases hc
  have hpos := Nat.pos_of_ne_zero hzero
  rcases pickLoop_picked p (p.pickCursor % p.conns.length) (List.range p.conns.length) none with
    ⟨hcursor, hsome, hnone⟩
  refine ⟨hcursor, ?_, ?_⟩
  · intro c hc
    rcases hsome c hc with hbest | ⟨k, _, rfl, hadmits⟩
    · cases hbest
    · exact ⟨place_mem p _ k hpos, hadmits⟩
  · intro hc c hmem
    rcases exists_place p (Nat.mod_lt p.pickCursor hpos) hmem with ⟨k, hk, rfl⟩
    exact (hnone hc).2 k (List.mem_range.mpr hk)

/-! ### Moves of the parts -/

/-- One move that counts no dial and no closing. -/
theorem runs_of_step (hstep : Desk.Step spare p.desk p'.desk)
    (hdials : p'.inFlightDials - p'.dialing = p.inFlightDials - p.dialing)
    (hclosed : p'.connsClosed = p.connsClosed) (hlog : p'.closings = p.closings)
    (hopts : p'.opts = p.opts) (hshut : p'.closed = p.closed) : Moves spare p p' :=
  ⟨.single hstep, hdials, by rw [hclosed, hlog], hopts, hshut⟩

theorem closings_granted (log : List Event) (c : ℕ) (mc : ManagedConn) :
    (log ++ [Event.granted c mc]).countP Event.isClosing = log.countP Event.isClosing := by
  simp [Event.isClosing]

/-- A lease for a request that is taken out of the queue. -/
theorem grant_runs {req : ℕ} {q : List ℕ} (hq : q.Perm (req :: rest))
    (h : (desk { p with waiters := q }).Sound spare) (hc : c ∈ p.conns) (hadmits : p.Admits c) :
    Moves spare { p with waiters := q } { p.grant req c with waiters := rest } := by
  have hitem := item_of_mem h hc
  have hstep : Desk.Step spare (desk { p with waiters := q }) _ :=
    .serve hq hc hitem hadmits.1 hadmits.2
  refine runs_of_step ?_ rfl rfl (closings_granted _ _ _) rfl rfl
  convert hstep using 1
  simp only [desk, grant, setMc, replyAcquire, List.map_append, List.map_cons, List.map_nil,
    Event.view]
  rw [Modify.map_modify]
  · rfl
  · exact fun _ => rfl

/-- An error for a request that is taken out of the queue. -/
theorem refuse_runs {req : ℕ} {q : List ℕ} (err : AcquireErr) (hq : q.Perm (req :: rest)) :
    Moves spare { p with waiters := q } { p.replyAcquire req (.error err) with waiters := rest } :=
  runs_of_step (.refuse err hq) rfl rfl rfl rfl rfl

theorem serveLoop_runs (ws : List ℕ) (h : (desk { p with waiters := ws }).Sound spare) :
    Moves spare { p with waiters := ws } (p.serveLoop ws) := by
  induction ws generalizing p with
  | nil => exact .refl _
  | cons req rest ih =>
    rcases pickLeastLoaded_spec p with ⟨⟨k, hcursor⟩, hfound, _⟩
    rw [serveLoop]
    rcases hpick : p.pickLeastLoaded with ⟨r, p'⟩
    rw [hpick] at hcursor hfound
    subst hcursor
    cases r with
    | none => exact ⟨.refl, rfl, rfl, rfl, rfl⟩
    | some c =>
      rcases hfound c rfl with ⟨hc, hadmits⟩
      have hmoved : Moves spare { p with waiters := req :: rest }
          { p.withCursor k with waiters := req :: rest } := ⟨.refl, rfl, rfl, rfl, rfl⟩
      have hgrant := grant_runs (.refl _) (hmoved.sound h) hc hadmits
      have hruns := hmoved.trans hgrant
      exact hruns.trans (ih (hruns.sound h))

theorem serveWaiters_runs (h : p.desk.Sound spare) : Moves spare p p.serveWaiters :=
  serveLoop_runs p.waiters h

theorem refuseAll_runs (p : Pool) (err : AcquireErr) (ws : List ℕ) :
    Moves spare { p with waiters := ws } (p.refuseAll err ws) := by
  induction ws generalizing p with
  | nil => exact .refl _
  | cons req rest ih => exact (refuse_runs err (.refl _)).trans (ih _)

theorem pruneLoop_runs (p : Pool) (out ws : List ℕ) :
    Moves spare { p with waiters := out ++ ws } (p.pruneLoop out ws) := by
  induction ws generalizing p out with
  | nil =>
    rw [List.append_nil]
    exact .refl _
  | cons req rest ih =>
    rw [pruneLoop]
    split_ifs
    · exact (refuse_runs .ctx List.perm_middle).trans (ih _ _)
    · simpa using ih p (out ++ [req])

theorem pruneExpiredWaiters_runs (p : Pool) : Moves spare p p.pruneExpiredWaiters :=
  pruneLoop_runs p [] p.waiters

theorem flushStrandedWaiters_runs (p : Pool) (err : AcquireErr) :
    Moves spare p (p.flushStrandedWaiters err) := by
  unfold flushStrandedWaiters
  split_ifs
  · exact .refl p
  · exact .refl p
  · exact .refl p
  · exact refuseAll_runs p err p.waiters

theorem liveCount_desk (p : Pool) : p.desk.liveCount = p.countLive := by
  apply List.countP_congr
  intro c _
  simp only [Desk.live, desk, List.getElem?_map, Pool.mc, Option.map_map]
  cases p.mcs[c]? <;> rfl

/-- Dials within the bound. -/
theorem startDials_runs (h : p.Kept spare) (hopen : p.closed = false) (n : ℕ)
    (hroom : p.countLive + p.inFlightDials + n ≤ p.opts.maxConnsPerHost) :
    Moves spare p (p.startDials n) := by
  have hdials := h.dials hopen
  refine ⟨.single (.order n hopen ?_), ?_, rfl, rfl, rfl⟩
  · rw [liveCount_desk]
    show (p.countLive : ℤ) + p.dialing + n ≤ p.opts.maxConnsPerHost
    omega
  · simp only [startDials]
    omega

theorem ensureDialForWaiters_runs (h : p.Kept spare) (hopen : p.closed = false) :
    Moves spare p p.ensureDialForWaiters := by
  unfold ensureDialForWaiters
  dsimp only
  split_ifs
  · exact .refl p
  · exact .refl p
  · exact .refl p
  · exact .refl p
  · apply startDials_runs h hopen
    omega

/-- A view of the records that a change respects. -/
theorem view_setMc {β : Type} (g : ManagedConn → β) (p : Pool) (c k : ℕ)
    (f : ManagedConn → ManagedConn) (hf : ∀ mc, g (f mc) = g mc) :
    g ((p.setMc c f).mc k) = g (p.mc k) := by
  have hview := Modify.getElem?_modify_of_eq hf p.mcs c k
  simp only [Pool.mc, setMc]
  rw [← Option.getD_map g noConn, hview, Option.getD_map]

theorem closings_closed (log : List Event) (c : ℕ) (mc : ManagedConn)
    (reason : Option CloseReason) (byClose : Bool) :
    (log ++ [Event.closed c mc reason byClose]).countP Event.isClosing =
      log.countP Event.isClosing + 1 := by
  simp [Event.isClosing]

theorem item_close (mc : ManagedConn) : ({ mc with c := mc.c.close } : ManagedConn).item =
    mc.item.close := by
  simp [ManagedConn.item, Item.close, Conn.isAlive, Conn.close]

theorem countGoAway_eq (p : Pool) (c : ℕ) :
    ∃ n, p.countGoAway c = { p with goAwaysReceived := n } := by
  unfold countGoAway
  split_ifs
  · exact ⟨_, rfl⟩
  · exact ⟨_, rfl⟩

section Close

variable {shelf : List ℕ} (hshelf : shelf.Perm (c :: rest))
    (h : (desk { p with conns := shelf }).Sound spare) (reason : Option CloseReason)
    (byClose : Bool) (hspare : byClose = true ∨ spare (p.mc c).item)

include hshelf h hspare

/-- A connection is closed as it is taken from the pool. -/
theorem closeConn_runs :
    Moves spare { p with conns := shelf } { p.closeConn c reason byClose with conns := rest } := by
  have hmem : c ∈ shelf := hshelf.mem_iff.mpr List.mem_cons_self
  have hitem := item_of_mem h hmem
  have hstep : Desk.Step spare (desk { p with conns := shelf }) _ :=
    .discard byClose hshelf hitem hspare
  refine ⟨.single ?_, rfl, ?_, rfl, rfl⟩
  · convert hstep using 1
    simp only [desk, closeConn, setMc, List.map_append, List.map_cons, List.map_nil, Event.view]
    rw [Modify.map_modify]
    · rfl
    · exact item_close
  · simp only [closeConn, closings, setMc, closings_closed]
    omega

/-- The same with the GOAWAY counted. -/
theorem closeGoAway_runs :
    Moves spare { p with conns := shelf }
      { (p.countGoAway c).closeConn c reason byClose with conns := rest } := by
  rcases countGoAway_eq p c with ⟨n, hn⟩
  rw [hn]
  have hcount : Moves spare { p with conns := shelf } { p with conns := shelf, goAwaysReceived := n } :=
    ⟨.refl, rfl, rfl, rfl, rfl⟩
  exact hcount.trans
    (closeConn_runs (p := { p with goAwaysReceived := n }) hshelf (hcount.sound h) reason byClose
      hspare)

end Close

/-- A closing of what may be closed, as a connection is taken from the pool. -/
def Closes (spare : Item → Prop) (close : Pool → ℕ → Pool) : Prop :=
  ∀ (q : Pool) (c : ℕ) (shelf rest : List ℕ), shelf.Perm (c :: rest) →
    (desk { q with conns := shelf }).Sound spare → spare (q.mc c).item →
    Moves spare { q with conns := shelf } { close q c with conns := rest }

theorem closeConn_closes (reason : Option CloseReason) :
    Closes spare fun p c => p.closeConn c reason false := by
  intro q c shelf rest hshelf hsound hc
  exact closeConn_runs hshelf hsound reason false (.inr hc)

variable {doomed : Pool → ℕ → Bool} {close : Pool → ℕ → Pool}

/-- An eviction takes out what may be closed. `keeps` is what the loop must not disturb for
that. -/
theorem evictLoop_runs (keeps : Pool → Prop)
    (hspare : ∀ q c, keeps q → doomed q c = true → spare (q.mc c).item)
    (hkeeps : ∀ q c, keeps q → keeps (close q c)) (hclose : Closes spare close)
    (out cs : List ℕ) (hp : keeps p) (h : (desk { p with conns := out ++ cs }).Sound spare) :
    Moves spare { p with conns := out ++ cs } (evictLoop doomed close p out cs) := by
  induction cs generalizing p out with
  | nil =>
    rw [List.append_nil]
    exact .refl _
  | cons c cs ih =>
    rw [evictLoop]
    split_ifs with hdoomed
    · have hruns := hclose p c (out ++ c :: cs) (out ++ cs) List.perm_middle h
        (hspare p c hp hdoomed)
      exact hruns.trans (ih out (hkeeps p c hp) (hruns.sound h))
    · rw [List.append_cons] at h ⊢
      exact ih (out ++ [c]) hp h

/-- A loop that decides by the connection at hand. -/
theorem evictLoop_each_runs
    (h : p.desk.Sound spare) (hspare : ∀ q c, doomed q c = true → spare (q.mc c).item)
    (hclose : Closes spare close) :
    Moves spare p (evictLoop doomed close p [] p.conns) :=
  evictLoop_runs (fun _ => True) (fun q c _ hc => hspare q c hc) (fun _ _ _ => trivial) hclose
    [] p.conns trivial h

theorem item_closeConn (p : Pool) (c k : ℕ) (reason : Option CloseReason) (byClose : Bool) :
    ((p.closeConn c reason byClose).mc k).item = (p.mc k).item ∨
      ((p.closeConn c reason byClose).mc k).item = (p.mc k).item.close := by
  by_cases hk : k < p.mcs.length
  · change ((p.setMc c _).mc k).item = _ ∨ ((p.setMc c _).mc k).item = _
    rw [mc_setMc _ _ _ _ hk]
    split_ifs
    · exact .inr (item_close _)
    · exact .inl rfl
  · left
    simp only [Pool.mc, closeConn, setMc]
    rw [List.getElem?_eq_none (by simpa using hk), List.getElem?_eq_none (by simpa using hk)]

theorem evict_runs (h : p.desk.Sound spare) (hstable : ∀ it, spare it → spare it.close)
    {target : ℕ} (hspare : spare (p.mc target).item) (reason : CloseReason) :
    Moves spare p (p.evict target reason) := by
  refine evictLoop_runs (fun q => spare (q.mc target).item) ?_ ?_ (closeConn_closes (some reason)) []
    p.conns hspare h
  · intro q c hq hc
    rw [beq_iff_eq.mp hc]
    exact hq
  · intro q c hq
    rcases item_closeConn q c target (some reason) false with heq | heq <;> rw [heq]
    · exact hq
    · exact hstable _ hq

theorem evictIdle_runs (h : p.desk.Sound spare) (hidle : ∀ it, Idle it → spare it) :
    Moves spare p p.evictIdle := by
  unfold evictIdle
  split_ifs
  · exact .refl p
  · refine evictLoop_each_runs h ?_ (closeConn_closes (some .idle))
    intro q c hc
    simp only [Bool.and_eq_true, decide_eq_true_eq] at hc
    exact hidle _ hc.1

theorem idle_of_spent {q : Pool} (h : q.spent c = true) : Idle (q.mc c).item := by
  simp only [spent, Bool.and_eq_true, decide_eq_true_eq] at h
  exact h.2

/-- What is dead and idle goes, whatever reason is told. -/
theorem evictSpent_runs (h : p.desk.Sound Idle) (reason : Pool → ℕ → Option CloseReason) :
    Runs p (p.evictLoop spent (fun p c => (p.countGoAway c).closeConn c (reason p c) false) []
      p.conns) := by
  apply evictLoop_each_runs h
  · exact fun q c hc => idle_of_spent hc
  · intro q c shelf rest hshelf hsound hc
    exact closeGoAway_runs hshelf hsound _ _ (.inr hc)

theorem refreshStreamCap_runs (p : Pool) (c : ℕ) : Moves spare p (p.refreshStreamCap c) := by
  -- the new limit depends on what the peer advertised on this connection
  have hstep : Desk.Step spare p.desk { p.desk with
      items := p.desk.items.modify c (.relimit (effectiveStreamCap p.opts.maxStreamsPerConn
        (p.mc c).c.peerMaxConcurrentStreams)) } := .relimit c _
  refine runs_of_step ?_ rfl rfl rfl rfl rfl
  convert hstep using 1
  simp only [desk, refreshStreamCap, setMc]
  congr 1
  apply List.ext_getElem?
  intro k
  simp only [List.getElem?_map, List.getElem?_modify]
  by_cases hk : c = k
  · subst hk
    rw [Pool.mc]
    cases p.mcs[c]? <;> simp [ManagedConn.item, Item.relimit]
  · cases p.mcs[k]? <;> simp [hk]

theorem refreshAll_runs (p : Pool) (cs : List ℕ) : Moves spare p (cs.foldl refreshStreamCap p) := by
  induction cs generalizing p with
  | nil => exact .refl p
  | cons c cs ih => exact (refreshStreamCap_runs p c).trans (ih _)

/-! ### Moves of the handlers -/

/-- What `handleAcquire` decides. -/
inductive Acquired (p : Pool) (req : ℕ) : Pool → Prop
  | granted (k c : ℕ) (hc : c ∈ p.conns) (hadmits : p.Admits c) :
      Acquired p req ((p.withCursor k).grant req c)
  | dialed (k : ℕ) (hfull : ∀ c ∈ p.conns, ¬ p.Admits c)
      (hroom : p.countLive + p.inFlightDials < p.opts.maxConnsPerHost)
      (hbackoff : p.inDialBackoff = false) :
      Acquired p req { (p.withCursor k).startDials 1 with waiters := p.waiters ++ [req] }
  | refused (k : ℕ) (hbackoff : p.inDialBackoff = true) (hlive : p.countLive = 0)
      (hdials : p.inFlightDials = 0) :
      Acquired p req ((p.withCursor k).replyAcquire req (.error .dialBackoff))
  | queued (k : ℕ) (hfull : ∀ c ∈ p.conns, ¬ p.Admits c)
      (hcovered : p.opts.maxConnsPerHost ≤ p.countLive + p.inFlightDials ∨ p.countLive ≠ 0 ∨
        p.inFlightDials ≠ 0) :
      Acquired p req { p.withCursor k with waiters := p.waiters ++ [req] }

theorem handleAcquire_acquired (p : Pool) (req : ℕ) : p.Acquired req (p.handleAcquire req) := by
  rcases pickLeastLoaded_spec p with ⟨⟨k, hcursor⟩, hfound, hmissed⟩
  unfold handleAcquire
  rcases hpick : p.pickLeastLoaded with ⟨r, p'⟩
  rw [hpick] at hcursor hfound hmissed
  subst hcursor
  cases r with
  | some c => exact .granted k c (hfound c rfl).1 (hfound c rfl).2
  | none =>
    dsimp only
    split_ifs with hdial hrefuse
    · simp only [Bool.and_eq_true, Bool.not_eq_true', decide_eq_false_iff_not] at hdial
      exact .dialed k (hmissed rfl) (Int.not_le.mp hdial.1) hdial.2
    · simp only [Bool.and_eq_true, beq_iff_eq] at hrefuse
      exact .refused k hrefuse.1.1 hrefuse.1.2 hrefuse.2
    · refine .queued k (hmissed rfl) ?_
      by_cases hcap : p.opts.maxConnsPerHost ≤ p.countLive + p.inFlightDials
      · exact .inl hcap
      right
      by_contra hnone
      rw [not_or, not_not, not_not] at hnone
      -- neither dialed nor refused: with room the backoff is open, and then something is left
      cases hback : (p.withCursor k).inDialBackoff with
      | false =>
        apply hdial
        rw [hback]
        simp only [Bool.not_false, Bool.and_true, Bool.not_eq_true', decide_eq_false_iff_not]
        exact hcap
      | true =>
        apply hrefuse
        rw [hback]
        simp only [Bool.true_and, Bool.and_eq_true, beq_iff_eq]
        exact hnone

theorem handleAcquire_runs (h : p.Kept spare) (hopen : p.closed = false) :
    Moves spare p (handleAcquire { p with callers := p.callers ++ [.new] } p.callers.length) := by
  -- the request stands in the queue until it is decided upon
  have henter : Moves spare p { p with
      callers := p.callers ++ [.new]
      waiters := p.waiters ++ [p.callers.length] } :=
    runs_of_step (.enter hopen) rfl rfl rfl rfl rfl
  have hperm : (p.waiters ++ [p.callers.length]).Perm (p.callers.length :: p.waiters) :=
    List.perm_append_singleton _ _
  have hmoved : ∀ k, Moves spare p { p with
      pickCursor := k
      callers := p.callers ++ [.new]
      waiters := p.waiters ++ [p.callers.length] } :=
    fun k => henter.trans ⟨.refl, rfl, rfl, rfl, rfl⟩
  generalize hq : handleAcquire _ _ = q
  have hacquired := handleAcquire_acquired { p with callers := p.callers ++ [.new] }
    p.callers.length
  rw [hq] at hacquired
  cases hacquired with
  | granted k c hc hadmits =>
    exact (hmoved k).trans (grant_runs
      (p := withCursor { p with callers := p.callers ++ [.new] } k) hperm ((hmoved k).sound h.sound) hc
      hadmits)
  | dialed k _ hroom =>
    exact (hmoved k).trans (startDials_runs ((hmoved k).books h) hopen 1 hroom)
  | refused k =>
    exact (hmoved k).trans (refuse_runs
      (p := withCursor { p with callers := p.callers ++ [.new] } k) .dialBackoff hperm)
  | queued k => exact hmoved k

/-- The two last steps of most handlers. -/
theorem rescue_runs (h : p.Kept spare) (hopen : p.closed = false) (err : AcquireErr) :
    Moves spare p (p.ensureDialForWaiters.flushStrandedWaiters err) :=
  (ensureDialForWaiters_runs h hopen).trans (flushStrandedWaiters_runs _ err)

/-- The actor works and then ends with the two steps of the rescue. -/
def Rescued (p : Pool) (err : AcquireErr) (p' : Pool) : Prop :=
  ∃ q, Runs p q ∧ p' = q.ensureDialForWaiters.flushStrandedWaiters err

theorem Rescued.runs {err : AcquireErr} (h : p.Rescued err p') (hp : p.Books)
    (hopen : p.closed = false) : Runs p p' := by
  rcases h with ⟨q, hruns, rfl⟩
  exact hruns.trans (rescue_runs (hruns.books hp) (hruns.closed.trans hopen) err)

theorem settle_runs (hrelease : p.releaseCh = c :: rest) :
    Moves spare p (setMc { p with releaseCh := rest } c fun mc =>
      { mc with active := mc.active - 1, lastUsed := p.now }) := by
  refine runs_of_step ?_ rfl rfl rfl rfl rfl
  rw [desk_setMc]
  · exact .settle hrelease
  · exact fun _ => rfl

theorem handleRelease_rescued (h : p.Books) (hrelease : p.releaseCh = c :: rest) :
    p.Rescued .dialBackoff (handleRelease { p with releaseCh := rest } c) := by
  have hsettle : Runs p _ := settle_runs hrelease
  unfold handleRelease
  dsimp only
  generalize setMc { p with releaseCh := rest } c _ = q at hsettle ⊢
  have hq := hsettle.books h
  have hevict : Runs q
      (if q.spent c then (q.countGoAway c).evict c (q.closeReason c .dead) else q) := by
    split_ifs with hspent
    · rcases countGoAway_eq q c with ⟨n, hn⟩
      rw [hn]
      have hcount : Runs q { q with goAwaysReceived := n } := ⟨.refl, rfl, rfl, rfl, rfl⟩
      exact hcount.trans (evict_runs (hcount.sound hq.sound) (fun _ hit => hit)
        (idle_of_spent hspent) _)
    · exact .refl q
  have hr := hevict.books hq
  exact ⟨_, hsettle.trans (hevict.trans (serveWaiters_runs hr.sound)), rfl⟩

theorem dialLost_runs (hdialing : p.dialing = n + 1) (lastDialErrAt : Option ℕ) :
    Moves spare p { p with
      dialing := p.dialing - 1
      inFlightDials := p.inFlightDials - 1
      lastDialErrAt } := by
  have hstep : Desk.Step spare p.desk { p.desk with coming := n } := .fail hdialing
  refine ⟨.single ?_, ?_, rfl, rfl, rfl⟩
  · convert hstep using 1
    simp only [desk, hdialing, Nat.add_sub_cancel]
  · simp only [hdialing, Nat.add_sub_cancel]
    omega

theorem refuseFront_runs (p : Pool) (err : AcquireErr) : Moves spare p (p.refuseFront err) := by
  unfold refuseFront
  split
  · exact .refl p
  · rename_i req rest hw
    exact refuse_runs (p := p) err (by rw [hw])

/-- The count of the dial and the front of the queue. -/
theorem dialRefused_runs (err : String) (hdialing : p.dialing = n + 1) :
    Moves spare p (refuseFront { p with
      dialing := p.dialing - 1
      inFlightDials := p.inFlightDials - 1
      lastDialErrAt := some p.now } (.dialError err)) :=
  (dialLost_runs hdialing (some p.now)).trans (refuseFront_runs _ (.dialError err))

theorem handleDialFailed_rescued (err : String) (hdialing : p.dialing = n + 1) :
    p.Rescued (.dialError err) (p.handleDialFailed err) :=
  ⟨_, dialRefused_runs err hdialing, rfl⟩

/-- The pool with a connection that was just dialed, before the queue is served. -/
def adopt (p : Pool) (c : Conn) (lastUsed : ℕ) : Pool :=
  { p with
    dialing := p.dialing - 1
    inFlightDials := p.inFlightDials - 1
    mcs := p.mcs ++ [{ ManagedConn.dialed c lastUsed with
      streamCap := effectiveStreamCap p.opts.maxStreamsPerConn c.peerMaxConcurrentStreams }]
    conns := p.conns ++ [p.mcs.length] }

theorem handleDialed_eq (p : Pool) (c : Conn) (lastUsed : ℕ) :
    p.handleDialed c lastUsed = (p.adopt c lastUsed).serveWaiters.ensureDialForWaiters := by
  unfold handleDialed refreshStreamCap setMc
  dsimp only
  rw [Modify.modify_append]
  rfl

theorem adopt_runs (hopen : p.closed = false) (c : Conn) (lastUsed : ℕ)
    (hdialing : p.dialing = n + 1) : Moves spare p (p.adopt c lastUsed) := by
  have hstep : Desk.Step spare p.desk _ := .arrive ({ ManagedConn.dialed c lastUsed with
    streamCap := effectiveStreamCap p.opts.maxStreamsPerConn c.peerMaxConcurrentStreams } :
    ManagedConn).item hdialing rfl hopen
  refine ⟨.single ?_, ?_, rfl, rfl, rfl⟩
  · convert hstep using 1
    simp only [desk, adopt, hdialing, Nat.add_sub_cancel, List.map_append, List.map_cons,
      List.map_nil, List.length_map]
  · simp only [adopt, hdialing, Nat.add_sub_cancel]
    omega

theorem handleDialed_runs (h : p.Kept spare) (hopen : p.closed = false) (c : Conn) (lastUsed : ℕ)
    (hdialing : p.dialing = n + 1) : Moves spare p (p.handleDialed c lastUsed) := by
  rw [handleDialed_eq]
  have hadopt : Moves spare p _ := adopt_runs hopen c lastUsed hdialing
  have hserve := hadopt.trans (serveWaiters_runs (hadopt.sound h.sound))
  exact hserve.trans (ensureDialForWaiters_runs (hserve.books h) (hserve.closed.trans hopen))

theorem handleTick_rescued (h : p.Books) : p.Rescued .dialBackoff p.handleTick := by
  have hdead : Runs p p.evictDead := evictSpent_runs h.sound _
  have hidle := hdead.trans (evictIdle_runs (hdead.sound h.sound) fun _ hit => hit)
  have hrefresh := hidle.trans (refreshAll_runs p.evictDead.evictIdle p.evictDead.evictIdle.conns)
  have hserve := hrefresh.trans (serveWaiters_runs (hrefresh.sound h.sound))
  exact ⟨_, hserve.trans (pruneExpiredWaiters_runs _), rfl⟩

theorem handleWarmup_runs (h : p.Kept spare) (hopen : p.closed = false) (n : ℤ) :
    Moves spare p (p.handleWarmup n) := by
  unfold handleWarmup
  dsimp only
  split_ifs
  · exact .refl p
  · exact .refl p
  · apply startDials_runs h hopen
    omega
  · exact .refl p
  · exact .refl p
  · apply startDials_runs h hopen
    omega

/-! ### Moves of the closing -/

theorem closeAll_runs (cs : List ℕ) (h : (desk { p with conns := cs }).Sound spare) :
    Moves spare { p with conns := cs } { p.closeAll cs with conns := [] } := by
  induction cs generalizing p with
  | nil => exact .refl _
  | cons c cs ih =>
    have hclose := closeGoAway_runs (.refl (c :: cs)) h (some (p.closeReason c .manual)) true
      (.inl rfl)
    exact hclose.trans (ih (hclose.sound h))

theorem refuseAll_waiters (p : Pool) (err : AcquireErr) (ws : List ℕ) :
    (p.refuseAll err ws).waiters = [] := by
  induction ws generalizing p with
  | nil => rfl
  | cons req rest ih => exact ih _

theorem closeAll_frame (p : Pool) (cs : List ℕ) : (p.closeAll cs).waiters = p.waiters ∧
    (p.closeAll cs).inFlightDials = p.inFlightDials ∧ (p.closeAll cs).dialing = p.dialing ∧
    (p.closeAll cs).drains = p.drains := by
  induction cs generalizing p with
  | nil => exact ⟨rfl, rfl, rfl, rfl⟩
  | cons c cs ih =>
    rcases countGoAway_eq p c with ⟨n, hn⟩
    have hrest := ih ((p.countGoAway c).closeConn c (some (p.closeReason c .manual)) true)
    rw [closeAll]
    rw [hn] at hrest ⊢
    exact hrest

theorem close_books (h : p.Kept spare) :
    Kept spare { p.handleClose with conns := [], closed := true } := by
  have hrefuse : Moves spare p _ := refuseAll_runs p .poolClosed p.waiters
  have hempty := refuseAll_waiters p .poolClosed p.waiters
  unfold handleClose
  dsimp only
  generalize p.refuseAll .poolClosed p.waiters = q at hrefuse hempty ⊢
  have hq : q.Kept spare := hrefuse.books h
  generalize hr : (if q.inFlightDials > 0 then
    { q with drains := q.inFlightDials, inFlightDials := 0 } else q) = r
  have hdesk : r.desk = q.desk ∧ r.connsClosed = q.connsClosed ∧ r.log = q.log ∧
      r.opts = q.opts := by
    subst hr
    split_ifs <;> exact ⟨rfl, rfl, rfl, rfl⟩
  have hclose : Moves spare r { r.closeAll r.conns with conns := [] } := by
    apply closeAll_runs
    rw [hdesk.1]
    exact hq.sound
  have hwaiters : (r.closeAll r.conns).waiters = [] := by
    rw [(closeAll_frame r r.conns).1]
    have : r.desk.queue = q.desk.queue := by rw [hdesk.1]
    exact this.trans hempty
  have hsound : (desk { r.closeAll r.conns with conns := [] }).Sound spare := by
    apply hclose.sound
    rw [hdesk.1]
    exact hq.sound
  refine ⟨Desk.Step.sound (.shut hwaiters rfl) hsound, ?_, (fun hopen => by cases hopen), ?_⟩
  · rw [show (r.closeAll r.conns).opts = r.opts from hclose.opts, hdesk.2.2.2]
    exact hq.cap
  have hcounted := hclose.counted
  have hqc := hq.counted
  have hlog : r.closings = q.closings := by rw [closings, closings, hdesk.2.2.1]
  show (r.closeAll r.conns).connsClosed = (r.closeAll r.conns).closings
  change ((r.closeAll r.conns).connsClosed : ℤ) - (r.closeAll r.conns).closings = _ at hcounted
  omega

/-! ### Moves of the world -/

/-- A connection dies. -/
theorem fall_runs (p : Pool) (c : ℕ) (f : Conn → Conn) (closed : Bool)
    (hdead : ∀ x, (f x).isAlive = false) (hclosed : ∀ x, (f x).closed = (x.closed || closed)) :
    Moves spare p (p.setC c f) := by
  refine runs_of_step ?_ rfl rfl rfl rfl rfl
  rw [setC, desk_setMc]
  · exact .fall c closed
  · intro mc
    simp [ManagedConn.item, Item.fall, hdead, hclosed]

theorem peerLimit_runs (p : Pool) (c n : ℕ) :
    Moves spare p (p.setC c fun x => { x with peerMaxConcurrentStreams := n }) := by
  have hdesk : (p.setC c fun x => { x with peerMaxConcurrentStreams := n }).desk = p.desk := by
    rw [setC, desk_setMc, List.modify_id]
    exact fun _ => rfl
  exact ⟨by rw [hdesk]; exact .refl, rfl, rfl, rfl, rfl⟩

theorem receive_runs {i : ℕ} (hstep : p.receive i = some p') : Moves spare p p' := by
  unfold receive at hstep
  split at hstep
  · rename_i hcl
    cases hstep
    exact runs_of_step (.take hcl (.inl rfl) rfl) rfl rfl rfl rfl rfl
  · rename_i hcl
    cases hstep
    exact runs_of_step (.take hcl (.inr rfl) rfl) rfl rfl rfl rfl rfl
  · cases hstep

/-- A step that an open pool takes. -/
theorem open_of_step {q : Pool} (h : (if p.closed then none else some q) = some p') :
    p.closed = false ∧ q = p' := by
  split_ifs at h with hopen
  cases h
  exact ⟨by simpa using hopen, rfl⟩

/-- A step that needs a dial as well. -/
theorem dialing_of_step {q : Pool}
    (h : (if p.closed ∨ p.dialing = 0 then none else some q) = some p') :
    p.closed = false ∧ (∃ n, p.dialing = n + 1) ∧ q = p' := by
  split_ifs at h with hguard
  cases h
  rw [not_or] at hguard
  exact ⟨by simpa using hguard.1, Nat.exists_eq_succ_of_ne_zero hguard.2, rfl⟩

/-- The steps that close nothing. -/
def Op.sparing : Op → Bool
  | .handleRelease | .stats | .tick | .close | .drained _ => false
  | _ => true

theorem sparing_moves (h : p.Kept spare) (hop : op.sparing = true) (hstep : p.step op = some p') :
    Moves spare p p' := by
  cases op with
  | acquire =>
    rcases open_of_step hstep with ⟨hopen, rfl⟩
    exact handleAcquire_runs h hopen
  | warmup n =>
    simp only [step] at hstep
    split_ifs at hstep with hguard
    cases hstep
    rw [not_or] at hguard
    exact handleWarmup_runs h (by simpa using hguard.1) n
  | dialed c lastUsed =>
    rcases dialing_of_step hstep with ⟨hopen, ⟨n, hn⟩, rfl⟩
    exact handleDialed_runs h hopen c lastUsed hn
  | dialFailed err =>
    rcases dialing_of_step hstep with ⟨hopen, ⟨n, hn⟩, rfl⟩
    have hrefused : Moves spare p _ := dialRefused_runs err hn
    exact hrefused.trans (rescue_runs (hrefused.books h) (hrefused.closed.trans hopen) _)
  | expire i =>
    cases hstep
    exact runs_of_step (.expire i) rfl rfl rfl rfl rfl
  | receive i => exact receive_runs hstep
  | abandon i =>
    simp only [step] at hstep
    split at hstep
    · rename_i hcl
      split_ifs at hstep
      cases hstep
      exact runs_of_step (.abandon hcl rfl) rfl rfl rfl rfl rfl
    · cases hstep
  | release i =>
    simp only [step] at hstep
    split at hstep
    · rename_i hcl
      split_ifs at hstep
      cases hstep
      exact runs_of_step (.giveBack hcl rfl) rfl rfl rfl rfl rfl
    · cases hstep
  | releaseLate i =>
    simp only [step] at hstep
    split at hstep
    · rename_i hcl
      split_ifs at hstep with hshut
      cases hstep
      refine runs_of_step ?_ rfl rfl rfl rfl rfl
      rw [setC, desk_setMc]
      · exact .keep hcl rfl hshut
      · exact item_close
    · cases hstep
  | readerExit c | goAway c =>
    cases hstep
    exact fall_runs p c _ false (fun x => by simp [Conn.isAlive]) (fun x => by simp)
  | connClose c =>
    cases hstep
    exact fall_runs p c _ true (fun x => by simp [Conn.isAlive, Conn.close])
      (fun x => by simp [Conn.close])
  | peerLimit c n =>
    cases hstep
    exact peerLimit_runs p c n
  | elapse d =>
    cases hstep
    exact ⟨.refl, rfl, rfl, rfl, rfl⟩
  | handleRelease | stats | tick | close | drained => cases hop

/-- Every step but the closing is a sequence of moves. -/
theorem step_runs (h : p.Books) (hclose : op ≠ .close) (hdrain : ∀ c, op ≠ .drained c)
    (hstep : p.step op = some p') : Runs p p' := by
  cases op with
  | handleRelease =>
    simp only [step] at hstep
    split at hstep
    · rename_i hopen hrelease
      cases hstep
      exact (handleRelease_rescued h hrelease).runs h hopen
    · cases hstep
  | stats =>
    rcases open_of_step hstep with ⟨-, rfl⟩
    exact evictSpent_runs h.sound fun _ _ => none
  | tick =>
    rcases open_of_step hstep with ⟨hopen, rfl⟩
    exact (handleTick_rescued h).runs h hopen
  | close => exact absurd rfl hclose
  | drained c => exact absurd rfl (hdrain c)
  | _ => exact sparing_moves h rfl hstep

/-- A dial that ends after the closing. -/
theorem drained_books (h : p.Kept spare) {c : Option Conn} (hstep : p.step (.drained c) = some p') :
    p'.Kept spare := by
  simp only [step] at hstep
  split_ifs at hstep with hguard
  rw [not_or, not_or, Bool.not_eq_false] at hguard
  rcases Nat.exists_eq_succ_of_ne_zero hguard.2.2 with ⟨n, hn⟩
  have hcounted := h.counted
  cases c with
  | none =>
    cases hstep
    have hmove : Desk.Step spare p.desk { p.desk with coming := n } := .fail hn
    refine ⟨?_, h.cap, fun hopen => ?_, hcounted⟩
    · convert hmove.sound h.sound using 1
      simp only [desk, hn, Nat.succ_sub_one]
    · rw [hguard.1] at hopen
      cases hopen
  | some c =>
    cases hstep
    have hmove : Desk.Step spare p.desk _ :=
      .drain (ManagedConn.dialed c p.now).item hn rfl hguard.1
    refine ⟨?_, h.cap, fun hopen => ?_, ?_⟩
    · convert hmove.sound h.sound using 1
      simp only [desk, closeConn, setMc, hn, Nat.succ_sub_one, List.map_append, List.map_cons,
        List.map_nil, Event.view, List.length_map]
      congr 1
      · rw [Modify.modify_append]
        simp [item_close]
      · simp [Pool.mc]
    · rw [hguard.1] at hopen
      cases hopen
    · simp only [closeConn, setMc, closings, closings_closed]
      rw [hcounted]
      rfl

theorem step_books (h : p.Books) (hstep : p.step op = some p') :
    p'.Books := by
  by_cases hclose : op = .close
  · subst hclose
    rcases open_of_step hstep with ⟨-, rfl⟩
    exact close_books h
  by_cases hdrain : ∃ c, op = .drained c
  · rcases hdrain with ⟨c, rfl⟩
    exact drained_books h hstep
  · have hruns := step_runs h hclose (fun c hc => hdrain ⟨c, hc⟩) hstep
    exact hruns.books h

theorem floored_pos (opts : PoolOptions) : 0 < opts.floored.maxConnsPerHost := by
  simp only [PoolOptions.floored]
  split_ifs <;> omega

theorem new_books (opts : PoolOptions) : (new opts).Books where
  sound := Desk.sound_opened (Int.le_of_lt (floored_pos opts))
  cap := floored_pos opts
  dials := fun _ => rfl
  counted := rfl

variable {opts : PoolOptions}

/-- The books are in order in every reachable state. -/
theorem reachable_books (h : (system opts).Reachable p) :
    p.Books := by
  refine h.invariant (new_books opts) ?_
  intro q op q' hq _ hstep
  exact step_books hq hstep

/-- The dials are handed over when the pool closes: none is counted any more, and for each that
is under way a receive waits. -/
theorem handleClose_handsOver (h : p.Kept spare) (hopen : p.closed = false) :
    p.handleClose.inFlightDials = 0 ∧
      (0 < p.handleClose.dialing → (p.handleClose.dialing : ℤ) ≤ p.handleClose.drains) := by
  have hrefuse : Moves spare p _ := refuseAll_runs p .poolClosed p.waiters
  unfold handleClose
  generalize p.refuseAll .poolClosed p.waiters = q at hrefuse ⊢
  have hq : q.Kept spare := hrefuse.books h
  have hdials := hq.dials (hrefuse.closed.trans hopen)
  rw [(closeAll_frame _ _).2.1, (closeAll_frame _ _).2.2.1, (closeAll_frame _ _).2.2.2]
  split_ifs
  · dsimp only
    omega
  · constructor <;> omega

/-- The actor is gone with the closing, and nobody else counts dials: a dial that ends is
received. -/
theorem step_closed (hshut : p.closed = true) (hstep : p.step op = some p') :
    p'.inFlightDials = p.inFlightDials ∧ p'.dialing ≤ p.dialing ∧
      p'.drains - p'.dialing = p.drains - p.dialing := by
  cases op with
  | drained c =>
    simp only [step] at hstep
    split_ifs at hstep
    have hdrained : p.dialing - 1 ≤ p.dialing ∧
        p.drains - 1 - (p.dialing - 1 : ℕ) = p.drains - p.dialing := by
      omega
    cases c <;> cases hstep <;> exact ⟨rfl, hdrained⟩
  | receive i =>
    simp only [step, receive] at hstep
    split at hstep <;> cases hstep <;> exact ⟨rfl, le_rfl, rfl⟩
  | abandon i | release i | releaseLate i =>
    simp only [step] at hstep
    split at hstep
    · split_ifs at hstep
      cases hstep
      exact ⟨rfl, le_rfl, rfl⟩
    · cases hstep
  | expire | readerExit | connClose | goAway | peerLimit | elapse =>
    cases hstep
    exact ⟨rfl, le_rfl, rfl⟩
  | _ => simp [step, hshut] at hstep

theorem reachable_shut (h : (system opts).Reachable p) :
    p.closed = true → p.inFlightDials = 0 := by
  induction h with
  | init => exact fun hshut => by cases hshut
  | @step q q' op hreach _ hstep ih =>
    intro hshut
    have hbooks : q.Books := reachable_books hreach
    cases hq : q.closed with
    | true => exact (step_closed hq hstep).1.trans (ih hq)
    | false =>
      by_cases hclose : op = .close
      · subst hclose
        rcases open_of_step hstep with ⟨-, rfl⟩
        exact (handleClose_handsOver hbooks hq).1
      · -- the other steps of an open pool leave it open
        by_cases hdrain : ∃ c, op = .drained c
        · rcases hdrain with ⟨c, rfl⟩
          simp [system, step, hq] at hstep
        · have hruns := step_runs hbooks hclose (fun c hc => hdrain ⟨c, hc⟩) hstep
          rw [hruns.closed, hq] at hshut
          cases hshut

/-! ## Every lease is accounted for -/

/-- Leases on a connection that were granted and whose release the actor has not taken: in the
hands of a caller or of `reclaim`, or in its reply channel, or on the way back in `releaseCh`. -/
def leases (p : Pool) (c : ℕ) : ℕ := (p.callers.map (Client.leases c)).sum + p.releaseCh.count c

/-- How often a connection was closed and counted. -/
def closingsOf (p : Pool) (c : ℕ) : ℕ := (p.log.map Event.view).countP (Lending.Event.closes c)

structure Accounted (p : Pool) : Prop where
  /-- an accepted request waits in the queue once, or one reply was sent to it -/
  answered : ∀ i caller, p.callers[i]? = some caller →
    (p.waiters.count i = 1 ∧ caller.answers = 0) ∨ (p.waiters.count i = 0 ∧ caller.answers = 1)
  active : ∀ (c : ℕ) (mc : ManagedConn), p.mcs[c]? = some mc → mc.active = (p.leases c : ℤ)
  granted : ∀ c mc, Event.granted c mc ∈ p.log →
    mc.c.isAlive = true ∧ mc.active < mc.streamCap
  bounded : p.countLive + p.inFlightDials ≤ p.opts.maxConnsPerHost
  inUse : ∀ c mc reason byClose, Event.closed c mc reason byClose ∈ p.log → 0 < mc.active →
    byClose = true
  /-- a connection is in the pool, and has not been closed by it, or it was closed once -/
  once : ∀ c mc, p.mcs[c]? = some mc →
    (p.conns.count c = 1 ∧ p.closingsOf c = 0) ∨
    (p.conns.count c = 0 ∧ p.closingsOf c = 1 ∧ mc.c.closed = true)
  counted : p.connsClosed = p.closings

theorem Kept.answered (h : p.Kept spare) (i : ℕ) (caller : Client AcquireErr)
    (hcaller : p.callers[i]? = some caller) :
    (p.waiters.count i = 1 ∧ caller.answers = 0) ∨
      (p.waiters.count i = 0 ∧ caller.answers = 1) := by
  have hsum := h.sound.answered i caller hcaller
  change p.waiters.count i + caller.answers = 1 at hsum
  omega

theorem Kept.active (h : p.Kept spare) (c : ℕ) (mc : ManagedConn) (hmc : p.mcs[c]? = some mc) :
    mc.active = (p.leases c : ℤ) := by
  have htally := h.sound.tallied c
  simp only [Desk.load, desk, List.getElem?_map, hmc, Option.map_some, Option.getD_some] at htally
  change mc.active = _ at htally
  rw [htally, leases]
  simp [Desk.owed]

theorem Kept.granted (h : p.Kept spare) (c : ℕ) (mc : ManagedConn)
    (hmem : Event.granted c mc ∈ p.log) : mc.c.isAlive = true ∧ mc.active < mc.streamCap :=
  h.sound.recorded _ (List.mem_map.mpr ⟨_, hmem, rfl⟩)

theorem Kept.bounded (h : p.Kept spare) (hshut : p.closed = true → p.inFlightDials = 0) :
    p.countLive + p.inFlightDials ≤ p.opts.maxConnsPerHost := by
  cases hopen : p.closed with
  | false =>
    have hbound := h.sound.bounded hopen
    rw [liveCount_desk] at hbound
    change (p.countLive : ℤ) + p.dialing ≤ p.opts.maxConnsPerHost at hbound
    have hdials := h.dials hopen
    omega
  | true =>
    have hempty : p.conns = [] := (h.sound.emptied hopen).2
    have hcap := h.cap
    simp only [countLive, hempty, List.countP_nil, hshut hopen]
    omega

theorem Kept.once (h : p.Kept spare) (c : ℕ) (mc : ManagedConn) (hmc : p.mcs[c]? = some mc) :
    (p.conns.count c = 1 ∧ p.closingsOf c = 0) ∨
      (p.conns.count c = 0 ∧ p.closingsOf c = 1 ∧ mc.c.closed = true) := by
  have hlt := (List.getElem?_eq_some_iff.mp hmc).1
  have honce := h.sound.once c
  simp only [desk, List.length_map, if_pos hlt] at honce
  change p.conns.count c + p.closingsOf c = 1 at honce
  by_cases hmem : c ∈ p.conns
  · have hpos := List.count_pos_iff.mpr hmem
    omega
  · have hzero := List.count_eq_zero.mpr hmem
    have hclosed := h.sound.closed c mc.item (by simp [desk, hmc]) hmem
    exact .inr ⟨hzero, by omega, hclosed.1⟩

theorem Books.accounted (h : p.Books) (hshut : p.closed = true → p.inFlightDials = 0) :
    p.Accounted where
  answered := h.answered
  active := h.active
  granted := h.granted
  bounded := h.bounded hshut
  inUse := by
    intro c mc reason byClose hmem hactive
    rcases h.sound.recorded _ (List.mem_map.mpr ⟨_, hmem, rfl⟩) with hfinal | hidle
    · exact hfinal
    · exact absurd (show mc.active = 0 from hidle) (by omega)
  once := h.once
  counted := h.counted

/-- Every lease of the pool is accounted for, in every reachable state. -/
theorem leases_accounted {opts : PoolOptions} {p : Pool} (h : (system opts).Reachable p) :
    p.Accounted :=
  (reachable_books h).accounted (reachable_shut h)

/-- A run with an abandoned caller, whose lease goes back and is granted to the next, and with a
connection that drains after GOAWAY and is then closed. -/
theorem leases_accounted_after_drain : ∃ p, (system ⟨2, 1, 0, 0⟩).Reachable p ∧
    (p.conns = [1] ∧ p.connsClosed = 1 ∧ p.leases 1 = 1) ∧ p.Accounted := by
  have hrun : ∃ p, (system ⟨2, 1, 0, 0⟩).Reachable p ∧
      p.conns = [1] ∧ p.connsClosed = 1 ∧ p.leases 1 = 1 := by
    apply System.exists_reachable
      [.acquire, .acquire, .dialed ⟨false, false, false, 0⟩ 0, .acquire, .expire 1, .abandon 1,
        .dialed ⟨false, false, false, 0⟩ 0, .receive 1, .release 1, .handleRelease, .goAway 0,
        .receive 0, .release 0, .handleRelease]
    decide +kernel
  rcases hrun with ⟨p, hp, hshape⟩
  exact ⟨p, hp, hshape, leases_accounted hp⟩

end Pool

end PoolCore
