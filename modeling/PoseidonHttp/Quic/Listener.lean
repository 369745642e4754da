import PoseidonHttp.Header
import PoseidonHttp.Lib.Transition

/-!
# The QUIC listener

`route`, `handshake`, `Accept` and `Close` of `quic/listener.go`, each locked section and channel
operation a step. `clean_of_reachable`: a handshake that fails leaves nothing behind, a connection
is returned once, and after `Close` every connection has an owner if the channel was empty when it
returned. `connection_left_in_channel`: it may not be empty.
-/

namespace Quic.Listener

open Header (Bytes)
open Transition

/-- How far a handshake came: `StartServerHandshake` has made its TLS handshake, its view is
registered, its `Conn` is made, `l.accepted` has it. -/
inductive Reached where
  | started
  | inTLS
  | registered
  | established
  | accepted
  deriving DecidableEq

def Reached.hasTLS : Reached → Bool
  | .started => false
  | _ => true

def Reached.hasView : Reached → Bool
  | .started | .inTLS => false
  | _ => true

/-- The handshake goroutine, and its deferred calls from `closing` on. -/
inductive Phase where
  | running
  | closing
  | leaving
  | left
  | done
  deriving DecidableEq

structure Handshake where
  dcid : Bytes := []
  scid : Bytes := []
  reached : Reached := .started
  phase : Phase := .done
  tlsClosed : Bool := false
  viewClosed : Bool := false
  deriving DecidableEq

/-- `Close`: `l.closed` is closed, then the views in `halfPCs` are, one after the other. -/
inductive Closing where
  | no
  | begun
  | waking (pending : List ℕ)
  | returned
  deriving DecidableEq

/-- The listener. The maps hold the number of the handshake whose entry it is; `returned` are the
connections that calls of `Accept` have returned. -/
structure State where
  hs : ℕ → Handshake := fun _ => {}
  count : ℕ := 0
  conns : Bytes → Option ℕ := fun _ => none
  halfOpen : Bytes → Option ℕ := fun _ => none
  halfPCs : Bytes → Option ℕ := fun _ => none
  accepted : List ℕ := []
  returned : List ℕ := []
  serving : Bool := true
  closing : Closing := .no

/-- A call of `Accept` that is cancelled or finds the listener closed changes nothing. -/
inductive Op where
  | route (dcid : Bytes)
  | reject (i : ℕ)
  | startTLS (i : ℕ)
  | refuse (i : ℕ)
  | register (i : ℕ) (scid : Bytes)
  | establish (i : ℕ)
  | publish (i : ℕ)
  | abandon (i : ℕ)
  | closeView (i : ℕ)
  | dropHalfPC (i : ℕ)
  | dropHalfOpen (i : ℕ)
  | accept
  | close
  | serveExit
  | collect (pending : List ℕ)
  | wake
  | wait

namespace State

def set (s : State) (i : ℕ) (h : Handshake) : State := { s with hs := Function.update s.hs i h }

/-- `Close` of the view, whose `onClose` drops the route. -/
def closeView (s : State) (i : ℕ) : State :=
  if (s.hs i).viewClosed then s
  else { s.set i { s.hs i with viewClosed := true } with
    conns := Function.update s.conns (s.hs i).scid none }

def step (s : State) : Op → Option State
  | .route dcid =>
    -- the datagram may be read after `Close` was called
    if s.serving ∧ s.halfOpen dcid = none then
      some { s.set s.count { dcid := dcid, phase := .running } with
        count := s.count + 1
        halfOpen := Function.update s.halfOpen dcid (some s.count) }
    else none
  | .reject i =>
    -- `AcceptInitial`, the random bytes or the keys failed
    if (s.hs i).phase = .running ∧ (s.hs i).reached = .started then
      some (s.set i { s.hs i with phase := .left })
    else none
  | .startTLS i =>
    if (s.hs i).phase = .running ∧ (s.hs i).reached = .started then
      some (s.set i { s.hs i with reached := .inTLS })
    else none
  | .refuse i =>
    -- `StartServerHandshake` fails, and closes what it has made
    if (s.hs i).phase = .running ∧ (s.hs i).reached = .inTLS then
      some (s.set i { s.hs i with tlsClosed := true, phase := .left })
    else none
  | .register i scid =>
    if (s.hs i).phase = .running ∧ (s.hs i).reached = .inTLS then
      some { s.set i { s.hs i with scid := scid, reached := .registered, viewClosed := false } with
        conns := Function.update s.conns scid (some i)
        halfPCs := Function.update s.halfPCs scid (some i) }
    else none
  | .establish i =>
    if (s.hs i).phase = .running ∧ (s.hs i).reached = .registered then
      some (s.set i { s.hs i with reached := .established })
    else none
  | .publish i =>
    -- the `select` may take this branch after `Close` as well
    if (s.hs i).phase = .running ∧ (s.hs i).reached = .established ∧ s.accepted.length < 16 then
      some { s.set i { s.hs i with reached := .accepted, phase := .leaving } with
        accepted := s.accepted ++ [i] }
    else none
  | .abandon i =>
    if (s.hs i).phase = .running ∧ ((s.hs i).reached = .registered ∨
        (s.hs i).reached = .established ∧ s.closing ≠ .no) then
      some (s.set i { s.hs i with tlsClosed := true, phase := .closing })
    else none
  | .closeView i =>
    if (s.hs i).phase = .closing then
      let s := s.closeView i
      some (s.set i { s.hs i with phase := .leaving })
    else none
  | .dropHalfPC i =>
    if (s.hs i).phase = .leaving then
      some { s.set i { s.hs i with phase := .left } with
        halfPCs := Function.update s.halfPCs (s.hs i).scid none }
    else none
  | .dropHalfOpen i =>
    if (s.hs i).phase = .left then
      some { s.set i { s.hs i with phase := .done } with
        halfOpen := Function.update s.halfOpen (s.hs i).dcid none }
    else none
  | .accept =>
    match s.accepted with
    | [] => none
    | i :: rest => some { s with accepted := rest, returned := s.returned ++ [i] }
  | .close => if s.closing = .no then some { s with closing := .begun } else none
  | .serveExit => if s.closing = .no then none else some { s with serving := false }
  | .collect pending =>
    -- a map is read in no order
    if s.closing = .begun ∧ pending.Perm
        ((List.range s.count).filter fun i => s.halfPCs (s.hs i).scid = some i) then
      some { s with closing := .waking pending }
    else none
  | .wake =>
    match s.closing with
    | .waking (i :: pending) => some { s.closeView i with closing := .waking pending }
    | _ => none
  | .wait =>
    if s.closing = .waking [] ∧ s.serving = false ∧ ∀ i < s.count, (s.hs i).phase = .done then
      some { s with closing := .returned }
    else none

end State

def system : System State Op := ⟨{}, State.step⟩

/-- What holds of one handshake, with its entries in the maps and its place in the channel. -/
@[grind cases]
structure Kept (s : State) (i : ℕ) : Prop where
  running : (s.hs i).phase = .running → (s.hs i).reached ≠ .accepted
  closing : (s.hs i).phase = .closing →
    (s.hs i).tlsClosed = true ∧ (s.hs i).reached ≠ .started ∧ (s.hs i).reached ≠ .inTLS ∧
      (s.hs i).reached ≠ .accepted
  out : (s.hs i).phase ≠ .running → (s.hs i).phase ≠ .closing → (s.hs i).reached = .started ∨
    (s.hs i).reached = .accepted ∨ (s.hs i).tlsClosed = true ∧
      ((s.hs i).reached = .inTLS ∨ (s.hs i).viewClosed = true)
  conns : ∀ k, s.conns k = some i →
    (s.hs i).scid = k ∧ (s.hs i).viewClosed = false ∧ (s.hs i).reached ≠ .started ∧
      (s.hs i).reached ≠ .inTLS
  halfOpen : ∀ k, s.halfOpen k = some i → (s.hs i).dcid = k ∧ (s.hs i).phase ≠ .done
  halfPCs : ∀ k, s.halfPCs k = some i → (s.hs i).scid = k ∧ (s.hs i).reached ≠ .started ∧
    (s.hs i).reached ≠ .inTLS ∧ (s.hs i).phase ≠ .left ∧ (s.hs i).phase ≠ .done
  count : (s.accepted ++ s.returned).count i = if (s.hs i).reached = .accepted then 1 else 0
  fresh : s.count ≤ i → (s.hs i).reached = .started ∧ (s.hs i).phase = .done
  stopped : s.closing = .returned → s.serving = false ∧ (s.hs i).phase = .done

variable {s s' : State} {j : ℕ}

theorem Kept.closeView (h : Kept s j) (i : ℕ) : Kept (s.closeView i) j := by
  rw [State.closeView]
  split_ifs with hclosed
  · exact h
  constructor <;> simp only [State.set] <;> grind

theorem viewClosed_closeView (s : State) (i : ℕ) : ((s.closeView i).hs i).viewClosed = true := by
  rw [State.closeView]
  split_ifs with hclosed
  · exact hclosed
  · simp [State.set]

theorem Kept.step (h : Kept s j) {op : Op} (hs : s.step op = some s') : Kept s' j := by
  cases op with
  | route dcid | reject i | startTLS i | refuse i | register i scid | establish i | publish i
  | abandon i | dropHalfPC i | dropHalfOpen i =>
    simp only [State.step, guarded] at hs
    obtain ⟨hguard, rfl⟩ := hs
    constructor <;> simp only [State.set, Function.update_apply] <;> grind
  | closeView i =>
    simp only [State.step, guarded] at hs
    obtain ⟨hguard, rfl⟩ := hs
    have hphase : ((s.closeView i).hs i).phase = .closing := by
      rw [State.closeView]
      split_ifs <;> simp [State.set, hguard]
    have hview := viewClosed_closeView s i
    have hclose := h.closeView i
    constructor <;> simp only [State.set, Function.update_apply] <;> grind
  | accept =>
    cases hchan : s.accepted with
    | nil => simp [State.step, hchan] at hs
    | cons i rest =>
      simp only [State.step, hchan, Option.some.injEq] at hs
      subst hs
      exact { h with count := by grind [h.count] }
  | close | collect pending =>
    simp only [State.step, guarded] at hs
    obtain ⟨-, rfl⟩ := hs
    exact { h with stopped := nofun }
  | serveExit =>
    simp only [State.step, Option.ite_none_left_eq_some, Option.some.injEq] at hs
    obtain ⟨-, rfl⟩ := hs
    exact { h with stopped := fun hreturned => ⟨rfl, (h.stopped hreturned).2⟩ }
  | wake =>
    simp only [State.step] at hs
    split at hs
    · next i pending _ =>
      cases hs
      exact { h.closeView i with stopped := nofun }
    · cases hs
  | wait =>
    simp only [State.step, guarded] at hs
    obtain ⟨⟨-, hserving, hdone⟩, rfl⟩ := hs
    have hj := (lt_or_ge j s.count).elim (hdone j) fun hle => (h.fresh hle).2
    exact { h with stopped := fun _ => ⟨hserving, hj⟩ }

def Inv (s : State) : Prop := ∀ i, Kept s i

theorem inv_of_reachableBy {cond : State → Op → Prop} (h : system.ReachableBy cond s) : Inv s := by
  refine h.invariant ?_ ?_
  · intro i
    constructor <;> simp [system]
  · intro s op s' hinv _ hstep i
    exact (hinv i).step hstep

/-- No leak: a handshake that is over and was not accepted has no entry, and its TLS handshake and
its view are closed, if it had any; a connection is returned once; and after `Close` no handshake
runs. -/
structure Clean (s : State) : Prop where
  failed : ∀ i, (s.hs i).phase = .done → (s.hs i).reached ≠ .accepted →
    (∀ k, s.conns k ≠ some i ∧ s.halfOpen k ≠ some i ∧ s.halfPCs k ≠ some i) ∧
    ((s.hs i).reached.hasTLS = true → (s.hs i).tlsClosed = true) ∧
    ((s.hs i).reached.hasView = true → (s.hs i).viewClosed = true)
  once : s.returned.Nodup
  stopped : s.closing = .returned → ∀ i, (s.hs i).phase = .done

/-- After `Close` every connection was returned or is closed. -/
def Owned (s : State) : Prop :=
  s.closing = .returned → ∀ i, (s.hs i).reached = .established ∨ (s.hs i).reached = .accepted →
    i ∈ s.returned ∨ (s.hs i).tlsClosed = true ∧ (s.hs i).viewClosed = true

/-- The channel is empty when `Close` returns: calls of `Accept` have taken what was in it. -/
def Drained (s : State) : Op → Prop
  | .wait => s.accepted = []
  | _ => True

instance (s : State) (op : Op) : Decidable (Drained s op) := by
  cases op <;> dsimp only [Drained] <;> infer_instance

/-- And it stays empty, as no handshake is left that could put a connection into it. -/
theorem empty_of_drained (h : system.ReachableBy Drained s) :
    s.closing = .returned → s.accepted = [] := by
  induction h with
  | init => exact nofun
  | @step s s' op hreach hdrained hstep ih =>
    intro hreturned
    have hstopped := fun i => ((inv_of_reachableBy hreach) i).stopped
    cases op <;> simp only [system, State.step, guarded, Option.ite_none_left_eq_some] at hstep <;>
      grind [Drained, State.closeView, State.set]

/-- What is over was accepted, or is closed. -/
theorem Kept.closed (h : Kept s j) (hdone : (s.hs j).phase = .done)
    (hnot : (s.hs j).reached ≠ .accepted) :
    ((s.hs j).reached.hasTLS = true → (s.hs j).tlsClosed = true) ∧
      ((s.hs j).reached.hasView = true → (s.hs j).viewClosed = true) := by
  have hout := h.out (by simp [hdone]) (by simp [hdone])
  cases hreached : (s.hs j).reached <;> simp_all [Reached.hasTLS, Reached.hasView]

theorem Inv.clean (h : Inv s) : Clean s := by
  constructor
  · intro i hdone hnot
    have hi := h i
    have hclosed := hi.closed hdone hnot
    exact ⟨by grind, hclosed⟩
  · rw [List.nodup_iff_count_le_one]
    intro i
    have hcount := (h i).count
    rw [List.count_append] at hcount
    split at hcount <;> omega
  · exact fun hreturned i => ((h i).stopped hreturned).2

theorem Inv.owned (h : Inv s) (hempty : s.closing = .returned → s.accepted = []) : Owned s := by
  intro hreturned i hreached
  rcases hreached with hreached | hreached
  · -- it was not published, and so it was abandoned
    have hclosed := (h i).closed ((h i).stopped hreturned).2 (by simp [hreached])
    rw [hreached] at hclosed
    exact .inr ⟨hclosed.1 rfl, hclosed.2 rfl⟩
  · have hcount := (h i).count
    rw [hempty hreturned, List.nil_append, if_pos hreached] at hcount
    exact .inl (List.count_pos_iff.mp (by omega))

/-- In every interleaving the listener is clean; and every connection has an owner after `Close` if
the channel was empty when it returned. -/
theorem clean_of_reachable (s : State) :
    (system.Reachable s → Clean s) ∧ (system.ReachableBy Drained s → Owned s) := by
  constructor
  · exact fun h => (inv_of_reachableBy h).clean
  · exact fun h => (inv_of_reachableBy h).owned (empty_of_drained h)

/-- One handshake, up to the channel. -/
def oneHandshake : List Op :=
  [.route [1], .startTLS 0, .register 0 [2], .establish 0, .publish 0, .dropHalfPC 0,
   .dropHalfOpen 0]

/-- A connection that is accepted, and a handshake that TLS refuses. -/
def acceptedRun : List Op :=
  oneHandshake ++ [.route [3], .startTLS 1, .refuse 1, .dropHalfOpen 1, .accept, .close, .serveExit,
    .collect [], .wait]

theorem clean_of_accepted :
    ∃ s, system.run system.init acceptedRun = some s ∧ (s.closing = .returned ∧ s.returned = [0] ∧
      (s.hs 1).reached = .inTLS ∧ (s.hs 1).tlsClosed = true) ∧ Clean s ∧ Owned s := by
  apply System.exists_run_known
  · intro s hrun
    have hmeets : system.RunMeets Drained system.init acceptedRun := by decide +kernel
    exact ⟨(clean_of_reachable s).1 (System.reachable_of_run hrun),
      (clean_of_reachable s).2 (System.reachableBy_run .init hmeets hrun)⟩
  · decide +kernel

/-- Without a call of `Accept` the connection is left in the channel when `Close` has returned. -/
theorem connection_left_in_channel : ∃ s, system.Reachable s ∧ s.closing = .returned ∧
    s.accepted = [0] ∧ s.returned = [] ∧ (s.hs 0).tlsClosed = false ∧
    (s.hs 0).viewClosed = false := by
  apply System.exists_reachable (oneHandshake ++ [.close, .serveExit, .collect [], .wait])
  decide +kernel

end Quic.Listener
