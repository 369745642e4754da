import PoseidonHttp.PoolCore.Ledger

/-!
# What a queued request waits for

After `serveWaiters` no connection takes another request while somebody waits, and nothing that
happens between two steps of the actor changes that. `EnsureDialForWaiters` then starts a dial
for a queue with nothing to wait for, unless the backoff of a failed dial is open, and
`FlushStrandedWaiters` refuses the queue in that case. Where the second is missing a queue can be
left with nothing: after a dial that brings a dead connection.
-/

namespace PoolCore

open Lending Transition

namespace Pool

variable {p p' : Pool}

/-- Nobody waits beside a connection that would take the request. -/
def Full (p : Pool) : Prop := p.waiters ≠ [] → ∀ c ∈ p.conns, ¬ p.Admits c

/-- There is something to wait for: a dial, or a connection that is alive. -/
def Hopeful (p : Pool) : Prop := p.waiters ≠ [] → 0 < p.inFlightDials ∨ 0 < p.countLive

/-- With a queue nobody looks at again: nothing alive and no dial. -/
def Stranded (p : Pool) : Prop := p.waiters ≠ [] ∧ p.countLive = 0 ∧ p.inFlightDials = 0

/-! ## Nobody waits beside free capacity -/

/-- A step that takes in no connection and opens none keeps the queue behind full ones. -/
theorem Full.of_le (h : p.Full) (hwaiters : p'.waiters ≠ [] → p.waiters ≠ [])
    (hconns : ∀ c ∈ p'.conns, c ∈ p.conns) (hadmits : ∀ c, p'.Admits c → p.Admits c) :
    p'.Full := by
  intro hw c hc hopen
  exact h (hwaiters hw) c (hconns c hc) (hadmits c hopen)

variable {doomed : Pool → ℕ → Bool} {close : Pool → ℕ → Pool} {c k : ℕ}

theorem admits_of_setMc {f : ManagedConn → ManagedConn}
    (hf : ∀ mc, (f mc).c.isAlive = true → (f mc).active < (f mc).streamCap →
      mc.c.isAlive = true ∧ mc.active < mc.streamCap) (k : ℕ) (h : (p.setMc c f).Admits k) :
    p.Admits k := by
  rcases Nat.lt_or_ge k p.mcs.length with hk | hk
  · rw [Admits, mc_setMc p c k f hk] at h
    by_cases hck : c = k
    · rw [if_pos hck] at h
      exact hf _ h.1 h.2
    · rwa [if_neg hck] at h
  · have hmodified : (p.mcs.modify c f)[k]? = none := List.getElem?_eq_none (by simpa using hk)
    have hnone : (p.setMc c f).mc k = p.mc k := by
      simp [Pool.mc, setMc, hmodified, List.getElem?_eq_none hk]
    rwa [Admits, hnone] at h

theorem admits_closeConn (c k : ℕ) (reason : Option CloseReason) (byClose : Bool)
    (h : (p.closeConn c reason byClose).Admits k) : p.Admits k := by
  refine admits_of_setMc (p := p) (c := c) ?_ k h
  intro mc halive
  simp [Conn.isAlive, Conn.close] at halive

/-- What is alive is counted. -/
theorem countLive_pos (hc : c ∈ p.conns) (halive : (p.mc c).c.isAlive = true) :
    0 < p.countLive :=
  List.countP_pos_iff.mpr ⟨c, hc, halive⟩

theorem exists_alive (h : 0 < p.countLive) : ∃ c ∈ p.conns, (p.mc c).c.isAlive = true :=
  List.countP_pos_iff.mp h

theorem not_admits_of_countLive (h : p.countLive = 0) (hc : c ∈ p.conns) :
    ¬ p.Admits c := by
  intro hadmits
  have hpos := countLive_pos hc hadmits.1
  omega

/-- A lease changes nothing but the load. -/
theorem isAlive_grant (req c k : ℕ) : ((p.grant req c).mc k).c.isAlive = (p.mc k).c.isAlive :=
  view_setMc (fun mc => mc.c.isAlive) p c k _ fun _ => rfl

/-- What `serveWaiters` does for the queue `ws`, and what it leaves alone. -/
structure Serves (p : Pool) (ws : List ℕ) (p' : Pool) : Prop where
  dials : p'.inFlightDials = p.inFlightDials
  live : p'.countLive = p.countLive
  backoff : p'.inDialBackoff = p.inDialBackoff
  waiters : p'.waiters ≠ [] → ws ≠ []
  unserved : p.countLive = 0 → p'.waiters = ws
  full : p'.Full

theorem serveLoop_serves (p : Pool) (ws : List ℕ) : Serves p ws (p.serveLoop ws) := by
  induction ws generalizing p with
  | nil => exact ⟨rfl, rfl, rfl, id, fun _ => rfl, fun hw => absurd rfl hw⟩
  | cons req rest ih =>
    rcases pickLeastLoaded_spec p with ⟨⟨k, hcursor⟩, hfound, hmissed⟩
    rw [serveLoop]
    rcases hpick : p.pickLeastLoaded with ⟨r, q⟩
    rw [hpick] at hcursor hfound hmissed
    subst hcursor
    cases r with
    | none => exact ⟨rfl, rfl, rfl, fun _ => by simp, fun _ => rfl, fun _ c hc => hmissed rfl c hc⟩
    | some c =>
      have hrest := ih ((p.withCursor k).grant req c)
      rcases hfound c rfl with ⟨hc, hadmits⟩
      refine ⟨hrest.dials, hrest.live.trans ?_, hrest.backoff, fun _ => by simp, ?_, hrest.full⟩
      · apply List.countP_congr
        intro j _
        rw [isAlive_grant]
        rfl
      · intro hnone
        exact absurd hadmits (not_admits_of_countLive hnone hc)

theorem serveWaiters_full (p : Pool) : p.serveWaiters.Full := (serveLoop_serves p p.waiters).full

theorem ensureDialForWaiters_eq (p : Pool) : ∃ n, p.ensureDialForWaiters = p.startDials n := by
  unfold ensureDialForWaiters
  dsimp only
  split_ifs
  · exact ⟨0, by simp [startDials]⟩
  · exact ⟨0, by simp [startDials]⟩
  · exact ⟨0, by simp [startDials]⟩
  · exact ⟨0, by simp [startDials]⟩
  · exact ⟨_, rfl⟩

theorem startDials_full (h : p.Full) (n : ℕ) : (p.startDials n).Full :=
  h

theorem ensureDialForWaiters_full (h : p.Full) : p.ensureDialForWaiters.Full := by
  rcases ensureDialForWaiters_eq p with ⟨n, hn⟩
  rw [hn]
  exact startDials_full h n

theorem flushStrandedWaiters_full (h : p.Full) (err : AcquireErr) :
    (p.flushStrandedWaiters err).Full := by
  unfold flushStrandedWaiters
  split_ifs
  · exact h
  · exact h
  · exact h
  · intro hw
    exact absurd (refuseAll_waiters p err p.waiters) hw

/-- The prefix of the queue that is kept only shrinks. -/
theorem pruneLoop_frame (p : Pool) (out ws : List ℕ) :
    (p.pruneLoop out ws).conns = p.conns ∧ (p.pruneLoop out ws).mcs = p.mcs ∧
      ((p.pruneLoop out ws).waiters ≠ [] → out ++ ws ≠ []) := by
  induction ws generalizing p out with
  | nil => exact ⟨rfl, rfl, fun hw => by simpa [pruneLoop] using hw⟩
  | cons req rest ih =>
    rw [pruneLoop]
    split_ifs
    · rcases ih (p.replyAcquire req (.error .ctx)) out with ⟨hconns, hmcs, _⟩
      exact ⟨hconns, hmcs, fun _ => by simp⟩
    · rcases ih p (out ++ [req]) with ⟨hconns, hmcs, _⟩
      exact ⟨hconns, hmcs, fun _ => by simp⟩

theorem admits_of_mcs (h : p'.mcs = p.mcs) (c : ℕ) : p'.Admits c ↔ p.Admits c := by
  simp only [Admits, Pool.mc, h]

theorem pruneExpiredWaiters_full (h : p.Full) : p.pruneExpiredWaiters.Full := by
  rcases pruneLoop_frame p [] p.waiters with ⟨hconns, hmcs, hwaiters⟩
  refine h.of_le hwaiters ?_ fun c => (admits_of_mcs hmcs c).mp
  intro c hc
  rwa [← hconns]

/-! ## The parts and what they leave alone -/

/-- What the closing of a connection that is left out keeps, an eviction keeps. -/
theorem evictLoop_keeps {P : Pool → Prop}
    (hclose : ∀ (q : Pool) (c : ℕ) (out cs : List ℕ), doomed q c = true →
      P { q with conns := out ++ c :: cs } → P { close q c with conns := out ++ cs })
    (p : Pool) (out cs : List ℕ) (h : P { p with conns := out ++ cs }) :
    P (evictLoop doomed close p out cs) := by
  induction cs generalizing p out with
  | nil =>
    rw [List.append_nil] at h
    exact h
  | cons c cs ih =>
    rw [evictLoop]
    split_ifs with hdoomed
    · exact ih _ out (hclose p c out cs hdoomed h)
    · rw [List.append_cons] at h
      exact ih p _ h

/-- What is dead may be closed, and the others are as alive as before. -/
theorem isAlive_closeConn (hdead : (p.mc c).c.isAlive = false) (k : ℕ) (reason : Option CloseReason)
    (byClose : Bool) : ((p.closeConn c reason byClose).mc k).c.isAlive = (p.mc k).c.isAlive := by
  simp only [Pool.mc, closeConn, setMc, List.getElem?_modify] at hdead ⊢
  by_cases hck : c = k
  · subst hck
    cases hmc : p.mcs[c]? with
    | none => simp
    | some mc =>
      rw [hmc] at hdead
      simpa [Conn.isAlive, Conn.close] using hdead.symm
  · simp [hck]

/-- Only what is dead is gone. -/
structure Spares (p p' : Pool) : Prop where
  waiters : p'.waiters = p.waiters
  dials : p'.inFlightDials = p.inFlightDials
  live : p'.countLive = p.countLive
  full : p.Full → p'.Full

/-- The stats path removes only what is dead. -/
theorem evictDeadSilent_spares (p : Pool) : Spares p p.evictDeadSilent := by
  refine evictLoop_keeps ?_ p [] p.conns ⟨rfl, rfl, rfl, id⟩
  rintro q c out cs hspent ⟨hwaiters, hdials, hlive, hfull⟩
  have hdead : (q.mc c).c.isAlive = false := by
    simp only [spent, Bool.and_eq_true, Bool.not_eq_true'] at hspent
    exact hspent.1
  rcases countGoAway_eq q c with ⟨n, hn⟩
  rw [hn]
  refine ⟨hwaiters, hdials, ?_, ?_⟩
  · rw [← hlive, countLive, countLive, List.countP_append, List.countP_append,
      List.countP_cons_of_neg (by rw [Bool.not_eq_true]; exact hdead)]
    congr 1 <;>
    · apply List.countP_congr
      intro k _
      exact Bool.eq_iff_iff.mp
        (isAlive_closeConn hdead k none false)
  · intro h
    refine (hfull h).of_le id ?_ fun k =>
      admits_closeConn c k none false
    intro k hk
    simp only [List.mem_append, List.mem_cons] at hk ⊢
    exact hk.imp_right .inr

/-! ## The rescue -/

theorem effectiveStreamCap_pos (localCap : ℤ) : 0 < effectiveStreamCap localCap 0 := by
  unfold effectiveStreamCap defaultMaxConcurrentStreams
  split_ifs <;> omega

theorem spareStreamCapacity_of_countLive (h : p.countLive = 0) : p.spareStreamCapacity = 0 := by
  apply List.sum_eq_zero
  intro n hn
  rcases List.mem_map.mp hn with ⟨c, hc, rfl⟩
  have hdead : (p.mc c).c.isAlive = false := by
    by_contra halive
    have hpos := countLive_pos hc (by simpa using halive)
    omega
  simp [hdead]

/-- With nothing to wait for and no backoff a dial is started. -/
theorem ensureDialForWaiters_dials (h : p.Books) (hopen : p.closed = false)
    (hwaiters : p.waiters ≠ []) (hlive : p.countLive = 0) (hbackoff : p.inDialBackoff = false) :
    0 < p.ensureDialForWaiters.inFlightDials := by
  have hdials := h.dials hopen
  have hcap := h.cap
  have hlen := List.length_pos_iff.mpr hwaiters
  rcases Int.lt_or_le 0 p.inFlightDials with hpos | hzero
  · rcases ensureDialForWaiters_eq p with ⟨n, hn⟩
    rw [hn]
    simp only [startDials]
    omega
  · have hnone : p.inFlightDials = 0 := by omega
    have hper := effectiveStreamCap_pos p.opts.maxStreamsPerConn
    unfold ensureDialForWaiters
    rw [if_neg (by omega), if_neg (by omega), hbackoff,
      spareStreamCapacity_of_countLive hlive, hnone]
    generalize effectiveStreamCap p.opts.maxStreamsPerConn 0 = perConn at hper ⊢
    rw [if_neg (by simp), if_neg (by omega)]
    have hneed : 1 ≤ ((p.waiters.length : ℤ) - 0 - 0 * perConn + perConn - 1) / perConn := by
      rw [Int.le_ediv_iff_mul_le hper]
      omega
    simp only [startDials, hlive, hnone]
    omega

/-- After the two last steps of a handler nobody waits for nothing. -/
theorem rescue_hopeful (h : p.Books) (hopen : p.closed = false) (err : AcquireErr) :
    (p.ensureDialForWaiters.flushStrandedWaiters err).Hopeful := by
  intro hw
  rcases ensureDialForWaiters_eq p with ⟨n, hn⟩
  have hdial := ensureDialForWaiters_dials h hopen
  rw [hn] at hdial hw ⊢
  unfold flushStrandedWaiters at hw ⊢
  split_ifs at hw ⊢ with hskip hlive hback
  · rcases hskip with hempty | hpos
    · exact absurd (List.length_eq_zero_iff.mp hempty) hw
    · exact .inl hpos
  · exact .inr hlive
  · -- no backoff: then a dial was started
    exact .inl (hdial hw (Nat.eq_zero_of_not_pos hlive) ((Bool.not_eq_true' _).mp hback))
  · exact absurd (refuseAll_waiters _ err _) hw

theorem Rescued.hopeful {err : AcquireErr} (h : p.Rescued err p') (hp : p.Books)
    (hopen : p.closed = false) : p'.Hopeful := by
  rcases h with ⟨q, hruns, rfl⟩
  exact rescue_hopeful (hruns.books hp) (hruns.closed.trans hopen) err

/-- Waiting for nothing is being stranded. -/
theorem hopeful_iff (h : p.Books) (hopen : p.closed = false) : p.Hopeful ↔ ¬ p.Stranded := by
  have hdials := h.dials hopen
  constructor
  · rintro hhope ⟨hw, hlive, hnone⟩
    rcases hhope hw with hpos | hpos
    · omega
    · omega
  · intro hnot hw
    by_contra hcon
    exact hnot ⟨hw, by omega, by omega⟩

/-! ## The steps of the actor -/

/-- The steps that leave a queue with nothing to wait for, by the state they start from: those
that do not look at a queue that is stranded already, and a dial that brings a dead connection
while the backoff of another dial is open. -/
def Strands (p : Pool) : Op → Prop
  | .acquire => p.Stranded ∧ p.inDialBackoff = true
  | .warmup _ => p.Stranded ∧ p.inDialBackoff = true
  | .stats => p.Stranded
  | .dialed c _ => p.waiters ≠ [] ∧ p.countLive = 0 ∧ p.inFlightDials = 1 ∧
      c.isAlive = false ∧ p.inDialBackoff = true
  | _ => False

theorem handleAcquire_full {req : ℕ} (h : p.Full) : (p.handleAcquire req).Full := by
  generalize hq : p.handleAcquire req = q
  have hacquired := handleAcquire_acquired p req
  rw [hq] at hacquired
  cases hacquired with
  | granted k c hc hadmits =>
    intro hw
    -- somebody waited beside a connection that takes a request
    exact absurd hadmits (h hw c hc)
  | dialed k hfull | queued k hfull => exact fun _ c hc => hfull c hc
  | refused k hbackoff hlive => exact fun _ c hc => not_admits_of_countLive hlive hc

theorem handleAcquire_hopeful {req : ℕ} (hcap : 0 < p.opts.maxConnsPerHost)
    (hdials : 0 ≤ p.inFlightDials) :
    (p.handleAcquire req).Hopeful ↔ ¬ (p.Stranded ∧ p.inDialBackoff = true) := by
  generalize hq : p.handleAcquire req = q
  have hacquired := handleAcquire_acquired p req
  rw [hq] at hacquired
  cases hacquired with
  | granted k c hc hadmits =>
    have hpos := countLive_pos hc hadmits.1
    refine iff_of_true (fun _ => .inr ?_) ?_
    · refine countLive_pos hc ?_
      rw [isAlive_grant]
      exact hadmits.1
    · rintro ⟨⟨_, hlive, _⟩, _⟩
      omega
  | dialed k hfull hroom hbackoff =>
    refine iff_of_true (fun _ => .inl ?_) ?_
    · show 0 < p.inFlightDials + (1 : ℕ)
      omega
    · rintro ⟨_, hopen⟩
      rw [hbackoff] at hopen
      cases hopen
  | refused k hbackoff hlive hnone =>
    constructor
    · rintro hhope ⟨⟨hw, _⟩, _⟩
      rcases hhope hw with hpos | hpos
      · exact absurd (show 0 < p.inFlightDials from hpos) (by omega)
      · exact absurd (show 0 < p.countLive from hpos) (by omega)
    · intro hnot hw
      exact absurd ⟨⟨hw, hlive, hnone⟩, hbackoff⟩ hnot
  | queued k hfull hcovered =>
    have hsome : 0 < p.inFlightDials ∨ 0 < p.countLive := by omega
    refine iff_of_true (fun _ => hsome) ?_
    rintro ⟨⟨_, hlive, hnone⟩, _⟩
    omega

theorem handleWarmup_hopeful (h : p.Books) (hopen : p.closed = false) {n : ℤ} (hn : 0 < n) :
    (p.handleWarmup n).Hopeful ↔ ¬ (p.Stranded ∧ p.inDialBackoff = true) := by
  have hcap := h.cap
  have hdials := h.dials hopen
  have htarget : 0 < (if n > p.opts.maxConnsPerHost then p.opts.maxConnsPerHost else n) := by
    split_ifs <;> omega
  unfold handleWarmup
  dsimp only
  generalize (if n > p.opts.maxConnsPerHost then p.opts.maxConnsPerHost else n) = target at htarget ⊢
  split_ifs with hneed hbackoff
  · have hsome : 0 < p.inFlightDials ∨ 0 < p.countLive := by omega
    refine iff_of_true (fun _ => hsome) ?_
    rintro ⟨⟨_, hlive, hnone⟩, _⟩
    omega
  · rw [hopeful_iff h hopen]
    simp [hbackoff]
  · refine iff_of_true (fun _ => .inl ?_) ?_
    · show 0 < p.inFlightDials + ((target - p.countLive - p.inFlightDials).toNat : ℤ)
      omega
    · rintro ⟨_, hback⟩
      exact hbackoff hback

theorem handleStats_hopeful (h : p.Books) (hopen : p.closed = false) :
    p.handleStats.2.Hopeful ↔ ¬ p.Stranded := by
  have hspares := evictDeadSilent_spares p
  rw [← hopeful_iff h hopen]
  show p.evictDeadSilent.Hopeful ↔ p.Hopeful
  unfold Hopeful
  rw [hspares.waiters, hspares.dials, hspares.live]

theorem countLive_adopt (h : p.Books) (c : Conn) (lastUsed : ℕ) :
    (p.adopt c lastUsed).countLive = p.countLive + c.isAlive.toNat := by
  have hold : ∀ k ∈ p.conns, (p.adopt c lastUsed).mc k = p.mc k := by
    intro k hk
    have hlt : k < p.mcs.length := by
      have hshelved := h.sound.shelved k hk
      simpa [desk] using hshelved
    simp [Pool.mc, adopt, List.getElem?_append_left hlt]
  have hnew : ((p.adopt c lastUsed).mc p.mcs.length).c = c := by
    simp [Pool.mc, adopt, ManagedConn.dialed]
  show (p.conns ++ [p.mcs.length]).countP _ = _
  rw [List.countP_append, List.countP_singleton, hnew]
  congr 1
  · apply List.countP_congr
    intro k hk
    rw [hold k hk]
  · cases c.isAlive <;> rfl

theorem handleDialed_hopeful (h : p.Books) (hopen : p.closed = false) {n : ℕ}
    (hdialing : p.dialing = n + 1) (c : Conn) (lastUsed : ℕ) :
    (p.handleDialed c lastUsed).Hopeful ↔ ¬ p.Strands (.dialed c lastUsed) := by
  have hlive := countLive_adopt h c lastUsed
  have hadopt : Runs p _ := adopt_runs hopen c lastUsed hdialing
  have hruns := hadopt.trans (serveWaiters_runs (hadopt.sound h.sound))
  have hdials := h.dials hopen
  rcases serveLoop_serves (p.adopt c lastUsed) p.waiters with
    ⟨hflight, hcount, hback, hshrink, hunserved, -⟩
  rw [handleDialed_eq]
  have hserve : (p.adopt c lastUsed).serveLoop p.waiters = (p.adopt c lastUsed).serveWaiters := rfl
  rw [hserve] at hflight hcount hback hshrink hunserved
  generalize (p.adopt c lastUsed).serveWaiters = r at *
  change r.inFlightDials = p.inFlightDials - 1 at hflight
  change r.inDialBackoff = p.inDialBackoff at hback
  rcases ensureDialForWaiters_eq r with ⟨m, hm⟩
  constructor
  · rintro hhope ⟨hw, hnone, hone, hdead, hbackoff⟩
    -- nothing is served, and the backoff keeps the pool from dialing
    have hzero : (p.adopt c lastUsed).countLive = 0 := by
      rw [hlive, hnone, hdead]
      rfl
    have hstay : r.ensureDialForWaiters = r := by
      unfold ensureDialForWaiters
      dsimp only
      rw [hback]
      split_ifs <;> rfl
    rw [hstay] at hhope
    have hwaiters : r.waiters ≠ [] := by
      rw [hunserved hzero]
      exact hw
    rcases hhope hwaiters with hpos | hpos
    · omega
    · omega
  · intro hnot hw
    rw [hm] at hw ⊢
    by_cases hsome : 0 < r.inFlightDials ∨ 0 < r.countLive
    · rcases hsome with hpos | hpos
      · left
        show 0 < r.inFlightDials + (m : ℤ)
        omega
      · exact .inr hpos
    · -- nothing is left: the connection was dead, and there is no backoff
      have hrlive : r.countLive = 0 := by omega
      have hdead : c.isAlive.toNat = 0 := by omega
      have hbackoff : r.inDialBackoff = false := by
        by_contra hon
        refine hnot ⟨hshrink hw, by omega, by omega, by simpa using hdead, ?_⟩
        rw [← hback]
        simpa using hon
      have hbooks := hruns.books h
      have hdial := ensureDialForWaiters_dials hbooks (hruns.closed.trans hopen) hw hrlive hbackoff
      rw [hm] at hdial
      exact .inl hdial

theorem refuseFront_full (h : p.Full) (err : AcquireErr) : (p.refuseFront err).Full := by
  unfold refuseFront
  split
  · exact h
  · rename_i req rest hw
    refine h.of_le ?_ (fun c hc => hc) fun c hadmits => hadmits
    simp [hw]

theorem rescue_full (h : p.Full) (err : AcquireErr) :
    (p.ensureDialForWaiters.flushStrandedWaiters err).Full :=
  flushStrandedWaiters_full (ensureDialForWaiters_full h) err

/-- A connection that changes without being dialed anew takes no more requests than before. -/
theorem setC_full (h : p.Full) (c : ℕ) (f : Conn → Conn)
    (hf : ∀ x, (f x).isAlive = true → x.isAlive = true) : (p.setC c f).Full := by
  refine h.of_le (fun hw => hw) (fun k hk => hk) fun k hadmits => ?_
  refine admits_of_setMc (p := p) (c := c) ?_ k hadmits
  exact fun mc halive hroom => ⟨hf mc.c halive, hroom⟩

/-- No step leaves somebody waiting beside a connection that takes the request. -/
theorem step_full {op : Op} (hbooks : p.Books) (h : p.Full) (hstep : p.step op = some p') : p'.Full := by
  cases op with
  | acquire =>
    rcases open_of_step hstep with ⟨-, rfl⟩
    exact handleAcquire_full h
  | handleRelease =>
    simp only [step] at hstep
    split at hstep
    · cases hstep
      exact rescue_full (serveWaiters_full _) _
    · cases hstep
  | warmup n =>
    simp only [step, handleWarmup] at hstep
    split_ifs at hstep <;> cases hstep <;> exact h
  | dialed c lastUsed =>
    rcases dialing_of_step hstep with ⟨-, -, rfl⟩
    exact ensureDialForWaiters_full (serveWaiters_full _)
  | dialFailed err =>
    rcases dialing_of_step hstep with ⟨-, -, rfl⟩
    have hlost : Full { p with
        dialing := p.dialing - 1
        inFlightDials := p.inFlightDials - 1
        lastDialErrAt := some p.now } := h
    exact rescue_full (refuseFront_full hlost _) _
  | stats =>
    rcases open_of_step hstep with ⟨-, rfl⟩
    exact (evictDeadSilent_spares p).full h
  | tick =>
    rcases open_of_step hstep with ⟨-, rfl⟩
    exact rescue_full (pruneExpiredWaiters_full (serveWaiters_full _)) _
  | close =>
    rcases open_of_step hstep with ⟨-, rfl⟩
    exact fun _ c hc => by cases hc
  | drained c =>
    simp only [step] at hstep
    split_ifs at hstep with hguard
    rw [not_or, Bool.not_eq_false] at hguard
    have hempty : p.waiters = [] := (hbooks.sound.emptied hguard.1).1
    cases c <;> cases hstep <;> exact fun hw => absurd hempty hw
  | expire i =>
    cases hstep
    exact h
  | receive i =>
    simp only [step, receive] at hstep
    split at hstep <;> cases hstep <;> exact h
  | abandon i | release i =>
    simp only [step] at hstep
    split at hstep
    · split_ifs at hstep
      cases hstep
      exact h
    · cases hstep
  | releaseLate i =>
    simp only [step] at hstep
    split at hstep
    · split_ifs at hstep
      cases hstep
      exact setC_full h _ .close fun x hx => by
        simp [Conn.isAlive, Conn.close] at hx
    · cases hstep
  | readerExit c | goAway c =>
    cases hstep
    exact setC_full h c _ fun x hx => by simp [Conn.isAlive] at hx
  | connClose c =>
    cases hstep
    exact setC_full h c _ fun x hx => by simp [Conn.isAlive, Conn.close] at hx
  | peerLimit c n =>
    cases hstep
    exact setC_full h c _ fun x hx => hx
  | elapse d =>
    cases hstep
    exact h

theorem reachable_full {opts : PoolOptions} (h : (system opts).Reachable p) : p.Full := by
  induction h with
  | init => exact fun hw => absurd rfl hw
  | step op hreach _ hstep ih => exact step_full (reachable_books hreach) ih hstep

/-- At the end of a step of the actor there is something to wait for, unless the step is one of
those that strand the queue. -/
theorem step_hopeful {op : Op} (hbooks : p.Books) (hactor : op.isActor = true)
    (hstep : p.step op = some p') : p'.Hopeful ↔ ¬ p.Strands op := by
  cases op with
  | acquire =>
    rcases open_of_step hstep with ⟨hopen, rfl⟩
    have hdials := hbooks.dials hopen
    exact handleAcquire_hopeful hbooks.cap
      (by show 0 ≤ p.inFlightDials; omega)
  | handleRelease =>
    simp only [step] at hstep
    split at hstep
    · rename_i c rest hopen hrelease
      cases hstep
      exact iff_of_true ((handleRelease_rescued hbooks hrelease).hopeful hbooks hopen) id
    · cases hstep
  | warmup n =>
    simp only [step] at hstep
    split_ifs at hstep with hguard
    cases hstep
    rw [not_or] at hguard
    exact handleWarmup_hopeful hbooks (by simpa using hguard.1) (by omega)
  | dialed c lastUsed =>
    rcases dialing_of_step hstep with ⟨hopen, ⟨n, hn⟩, rfl⟩
    exact handleDialed_hopeful hbooks hopen hn c lastUsed
  | dialFailed err =>
    rcases dialing_of_step hstep with ⟨hopen, ⟨n, hn⟩, rfl⟩
    exact iff_of_true ((handleDialFailed_rescued err hn).hopeful hbooks hopen) id
  | stats =>
    rcases open_of_step hstep with ⟨hopen, rfl⟩
    exact handleStats_hopeful hbooks hopen
  | tick =>
    rcases open_of_step hstep with ⟨hopen, rfl⟩
    exact iff_of_true ((handleTick_rescued hbooks).hopeful hbooks hopen) id
  | close =>
    rcases open_of_step hstep with ⟨-, rfl⟩
    have hempty := ((close_books hbooks).sound.emptied rfl).1
    exact iff_of_true (fun hw => absurd hempty hw) id
  | _ => cases hactor

/-! ## Nobody waits for nothing -/

/-- Whoever waits has something to wait for, and no connection that is alive would take the
request. -/
def Covered (p : Pool) : Prop :=
  p.waiters ≠ [] →
    (0 < p.inFlightDials ∨ ∃ c ∈ p.conns, (p.mc c).c.isAlive = true) ∧
    ∀ c ∈ p.conns, (p.mc c).c.isAlive = true → (p.mc c).streamCap ≤ (p.mc c).active

theorem covered_iff (h : p.Full) : p.Covered ↔ p.Hopeful := by
  constructor
  · intro hcovered hw
    rcases (hcovered hw).1 with hpos | ⟨c, hc, halive⟩
    · exact .inl hpos
    · exact .inr (countLive_pos hc halive)
  · intro hhope hw
    refine ⟨(hhope hw).imp_right exists_alive, fun c hc halive => ?_⟩
    by_contra hroom
    exact h hw c hc ⟨halive, Int.not_le.mp hroom⟩

/-- Two dials are under way for two requests; one fails, which opens the backoff, and the other
brings a connection whose peer is going away. The second request stays in the queue with no dial
and no connection that is alive. -/
theorem dead_dial_strands_waiter : ∃ p p', (system ⟨2, 1, 0, 0⟩).Reachable p ∧
    p.step (.dialed ⟨false, false, true, 0⟩ 0) = some p' ∧ ¬ p'.Covered ∧ p'.waiters = [1] ∧
    p'.inFlightDials = 0 ∧ p'.countLive = 0 := by
  have hrun : ∃ p, (system ⟨2, 1, 0, 0⟩).Reachable p ∧
      ∃ p' ∈ p.step (.dialed ⟨false, false, true, 0⟩ 0),
        p'.waiters = [1] ∧ p'.inFlightDials = 0 ∧ p'.countLive = 0 := by
    apply System.exists_reachable [.acquire, .acquire, .dialFailed "refused"]
    decide +kernel
  rcases hrun with ⟨p, hp, p', hstep, hend⟩
  refine ⟨p, p', hp, hstep, fun hcovered => ?_, hend⟩
  rcases (hcovered (by simp [hend.1])).1 with hpos | ⟨c, hc, halive⟩
  · omega
  · have hpos := countLive_pos hc halive
    omega

/-- A step of the actor leaves everybody covered exactly if it is not one of those that strand the
queue. -/
theorem waiters_covered_iff {opts : PoolOptions} {op : Op} (h : (system opts).Reachable p)
    (hactor : op.isActor = true) (hstep : p.step op = some p') :
    p'.Covered ↔ ¬ p.Strands op := by
  have hbooks : p.Books := reachable_books h
  rw [covered_iff (step_full hbooks (reachable_full h) hstep)]
  exact step_hopeful hbooks hactor hstep

/-- A second request comes while the only connection of the pool is at its limit. -/
theorem waiters_covered_iff_full : ∃ p p', (system ⟨1, 1, 0, 0⟩).Reachable p ∧
    p.step .acquire = some p' ∧ p'.waiters = [1] ∧ (p'.Covered ↔ ¬ p.Strands .acquire) := by
  have hrun : ∃ p, (system ⟨1, 1, 0, 0⟩).Reachable p ∧
      ∃ p' ∈ p.step .acquire, p'.waiters = [1] := by
    apply System.exists_reachable [.acquire, .dialed ⟨false, false, false, 0⟩ 0]
    decide +kernel
  rcases hrun with ⟨p, hp, p', hstep, hwaiters⟩
  exact ⟨p, p', hp, hstep, hwaiters, waiters_covered_iff hp rfl hstep⟩

end Pool

end PoolCore
