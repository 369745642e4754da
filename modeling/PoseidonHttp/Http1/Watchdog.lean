import Mathlib.Data.List.Count
import PoseidonHttp.Lib.Transition

/-!
# The context watchdog of an HTTP/1.1 connection

`http1/conn.go`: one goroutine for each connection makes the deadline of a blocked call elapse when
the context of the call is cancelled. A call binds its context to it (`armWatch`) and takes it back
(`disarmWatch`), each by a rendezvous on an unbuffered channel; `Close` closes `quit`, and the
goroutine closes `gone` when it leaves (`watch`). A step here is one channel operation, or what a
goroutine does between two of them.

* `watchdog_lawful`: no call hangs, no deadline is set for a call that has returned, and after a
  close the goroutine only leaves.
-/

namespace Http1.Watchdog

open Transition

inductive DeadlineKind where
  | read
  | write
  deriving DecidableEq

/-- A call of `armWatch` with a context that can be cancelled, numbered. -/
structure WatchReq where
  n : ℕ
  ctx : ℕ
  kind : DeadlineKind
  deriving DecidableEq

/-- Where the goroutine is. -/
inductive Dog where
  | absent
  | idle
  | watching (req : WatchReq)
  /-- It saw the context done and is about to set the deadline. -/
  | firing (req : WatchReq)
  | fired (req : WatchReq)
  | gone
  deriving DecidableEq

/-- Where the caller is. -/
inductive Caller where
  | outside
  /-- In `armWatch`, before it starts the goroutine. -/
  | starting (req : WatchReq)
  /-- At the `select` of `armWatch`. -/
  | arming (req : WatchReq)
  | armed (req : WatchReq)
  /-- `armWatch` has returned false. -/
  | unarmed
  | disarming (req : WatchReq)
  deriving DecidableEq

structure State where
  dog : Dog := .absent
  caller : Caller := .outside
  quit : Bool := false
  cancelled : ℕ → Bool := fun _ => false
  /-- How many calls of `armWatch` had such a context. -/
  calls : ℕ := 0
  /-- The deadlines the goroutine has set. -/
  deadlines : List WatchReq := []

inductive Op where
  /-- The context is nil or cannot be cancelled, or it is the given one. -/
  | armWatch (ctx : Option ℕ) (kind : DeadlineKind)
  | start
  /-- A rendezvous on `armCh`. -/
  | arm
  /-- `armWatch` sees `gone` closed. -/
  | armGone
  | disarmWatch
  /-- A rendezvous on `disarmCh`. -/
  | disarm
  /-- The goroutine sees `quit` closed. -/
  | leave
  /-- The goroutine sees the context done. -/
  | done
  | setDeadline
  | cancel (ctx : ℕ)
  | close
  deriving DecidableEq

def step (s : State) : Op → Option State
  | .armWatch ctx kind =>
    match s.caller, ctx with
    | .outside, none => some { s with caller := .unarmed }
    | .outside, some ctx =>
      some { s with caller := .starting ⟨s.calls, ctx, kind⟩, calls := s.calls + 1 }
    | _, _ => none
  | .start =>
    match s.caller with
    | .starting req => some { s with
        caller := .arming req
        dog := if s.dog = .absent then .idle else s.dog }
    | _ => none
  | .arm =>
    match s.caller, s.dog with
    | .arming req, .idle => some { s with caller := .armed req, dog := .watching req }
    | _, _ => none
  | .armGone =>
    match s.caller, s.dog with
    | .arming _, .gone => some { s with caller := .unarmed }
    | _, _ => none
  | .disarmWatch =>
    match s.caller with
    | .armed req => some { s with caller := .disarming req }
    | .unarmed => some { s with caller := .outside }
    | _ => none
  | .disarm =>
    match s.caller, s.dog with
    | .disarming _, .watching _ => some { s with caller := .outside, dog := .idle }
    | .disarming _, .fired _ => some { s with caller := .outside, dog := .idle }
    | _, _ => none
  | .leave =>
    match s.dog with
    | .idle => if s.quit then some { s with dog := .gone } else none
    | _ => none
  | .done =>
    match s.dog with
    | .watching req => if s.cancelled req.ctx then some { s with dog := .firing req } else none
    | _ => none
  | .setDeadline =>
    match s.dog with
    | .firing req => some { s with dog := .fired req, deadlines := s.deadlines ++ [req] }
    | _ => none
  | .cancel ctx => some { s with cancelled := fun c => decide (c = ctx) || s.cancelled c }
  | .close => some { s with quit := true }

def system : System State Op := ⟨{}, step⟩

/-! ## The two sides agree -/

/-- The arming the goroutine is bound to. -/
def Dog.req : Dog → Option WatchReq
  | .watching req | .firing req | .fired req => some req
  | _ => none

/-- The arming that has taken and is not taken back. -/
def Caller.held : Caller → Option WatchReq
  | .armed req | .disarming req => some req
  | _ => none

/-- The arming the caller is at. -/
def Caller.req : Caller → Option WatchReq
  | .starting req | .arming req | .armed req | .disarming req => some req
  | _ => none

/-- The goroutine is bound to what the caller holds, and it was started before the caller waits
for it. -/
structure Inv (s : State) : Prop where
  bound : s.dog.req = s.caller.held
  started : ∀ req, s.caller = .arming req → s.dog ≠ .absent
  fresh : ∀ req, s.caller.req = some req → req.n < s.calls

theorem step_inv {s s' : State} {op : Op} (h : Inv s) (hs : step s op = some s') : Inv s' := by
  obtain ⟨hbound, hstarted, hfresh⟩ := h
  cases op <;> simp only [step] at hs
  case armWatch ctx kind =>
    split at hs <;> cases hs
    all_goals
      rename_i hcaller
      rw [hcaller] at hbound
      refine ⟨hbound, by simp, ?_⟩
      simp [Caller.req]
  case start =>
    split at hs <;> cases hs
    rename_i req hcaller
    rw [hcaller] at hbound hfresh
    refine ⟨?_, ?_, hfresh⟩
    · split_ifs <;> first | rfl | exact hbound
    · intro _ _
      split_ifs <;> simp_all
  case arm =>
    split at hs <;> cases hs
    rename_i req hcaller _
    rw [hcaller] at hfresh
    exact ⟨rfl, by simp, hfresh⟩
  case armGone =>
    split at hs <;> cases hs
    rename_i hcaller _
    rw [hcaller] at hbound
    exact ⟨hbound, by simp, by simp [Caller.req]⟩
  case disarmWatch =>
    split at hs <;> cases hs
    all_goals
      rename_i hcaller
      rw [hcaller] at hbound hfresh
      exact ⟨hbound, by simp, hfresh⟩
  case disarm =>
    split at hs <;> cases hs
    all_goals exact ⟨rfl, by simp, by simp [Caller.req]⟩
  case leave | done =>
    split at hs
    · rename_i hdog
      split_ifs at hs
      cases hs
      rw [hdog] at hbound
      exact ⟨hbound, by simp, hfresh⟩
    · cases hs
  case setDeadline =>
    split at hs <;> cases hs
    rename_i hdog
    rw [hdog] at hbound
    exact ⟨hbound, by simp, hfresh⟩
  case cancel | close =>
    cases hs
    exact ⟨hbound, hstarted, hfresh⟩

theorem reachable_inv {s : State} (h : system.Reachable s) : Inv s := by
  refine h.invariant ⟨rfl, by simp [system], by simp [system, Caller.req]⟩ ?_
  intro s op s' hinv _ hs
  exact step_inv hinv hs

/-! ## Calls return, and nothing is left behind -/

/-- A step of the caller's or of the goroutine's own. -/
def Op.own : Op → Bool
  | .start | .arm | .armGone | .disarm | .leave | .done | .setDeadline => true
  | _ => false

/-- The caller is in neither `armWatch` nor `disarmWatch`. -/
def Caller.returned : Caller → Bool
  | .outside | .armed _ | .unarmed => true
  | _ => false

/-- A call that waits is answered: no step of anyone else is needed. -/
theorem exists_return {s : State} (h : Inv s) :
    ∃ ops t, (∀ op ∈ ops, op.own = true) ∧ system.run s ops = some t ∧
      t.caller.returned = true := by
  obtain ⟨dog, caller, quit, cancelled, calls, deadlines⟩ := s
  have hbound := h.bound
  cases caller with
  | outside | armed _ | unarmed => exact ⟨[], _, by simp, rfl, rfl⟩
  | starting req =>
    cases dog with
    | absent | idle => exact ⟨[.start, .arm], _, by decide, rfl, rfl⟩
    | gone => exact ⟨[.start, .armGone], _, by decide, rfl, rfl⟩
    | watching _ | firing _ | fired _ => cases hbound
  | arming req =>
    cases dog with
    | absent => exact absurd rfl (h.started req rfl)
    | idle => exact ⟨[.arm], _, by decide, rfl, rfl⟩
    | gone => exact ⟨[.armGone], _, by decide, rfl, rfl⟩
    | watching _ | firing _ | fired _ => cases hbound
  | disarming req =>
    cases dog with
    | watching _ | fired _ => exact ⟨[.disarm], _, by decide, rfl, rfl⟩
    | firing _ => exact ⟨[.setDeadline, .disarm], _, by decide, rfl, rfl⟩
    | absent | idle | gone => cases hbound

/-- The caller does not come back to a call it has left, and deadlines are set for the call it is
at. -/
theorem step_left {s s' : State} {op : Op} {req : WatchReq} (h : Inv s) (hn : req.n < s.calls)
    (hleft : s.caller.req ≠ some req) (hs : step s op = some s') :
    req.n < s'.calls ∧ s'.caller.req ≠ some req ∧
      s'.deadlines.count req = s.deadlines.count req := by
  cases op <;> simp only [step] at hs
  case armWatch ctx kind =>
    split at hs <;> cases hs
    · exact ⟨hn, by simp [Caller.req], rfl⟩
    · refine ⟨Nat.lt_succ_of_lt hn, ?_, rfl⟩
      rintro ⟨⟩
      exact Nat.lt_irrefl _ hn
  case setDeadline =>
    split at hs <;> cases hs
    rename_i other hdog
    have hheld : s.caller.held = some other := by rw [← h.bound, hdog]; rfl
    have hne : other ≠ req := by
      rintro rfl
      cases hcaller : s.caller <;> simp_all [Caller.held, Caller.req]
    exact ⟨hn, hleft, by simp [List.count_append, hne]⟩
  case cancel | close =>
    cases hs
    exact ⟨hn, hleft, rfl⟩
  all_goals
    split at hs <;> (try split_ifs at hs) <;> cases hs <;> simp_all [Caller.req]

theorem count_deadlines {s t : State} {req : WatchReq} {ops : List Op} (h : Inv s)
    (hn : req.n < s.calls) (hleft : s.caller.req ≠ some req) (hrun : system.run s ops = some t) :
    t.deadlines.count req = s.deadlines.count req := by
  induction ops generalizing s with
  | nil =>
    cases hrun
    rfl
  | cons op ops ih =>
    rcases Option.bind_eq_some_iff.mp hrun with ⟨s', hs, hrest⟩
    rcases step_left h hn hleft hs with ⟨hn', hleft', hcount⟩
    exact (ih (step_inv h hs) hn' hleft' hrest).trans hcount

/-- In every interleaving: a call of `armWatch` or `disarmWatch` can return, by steps of its own and
of the goroutine; after `disarmWatch` has returned no deadline is set for its arming; and while the
connection is closed and no call of `armWatch` is under way or in force, the goroutine can leave and
can do nothing else. -/
theorem watchdog_lawful {s : State} (h : system.Reachable s) :
    (∃ ops t, (∀ op ∈ ops, op.own = true) ∧ system.run s ops = some t ∧
      t.caller.returned = true) ∧
    (∀ req s' ops t, s.caller = .disarming req → step s .disarm = some s' →
      system.run s' ops = some t → t.deadlines.count req = s'.deadlines.count req) ∧
    (s.quit = true → s.caller.req = none →
      (s.dog = .idle → ∃ t, step s .leave = some t ∧ t.dog = .gone) ∧
      ∀ op t, step s op = some t → t.dog = s.dog ∨ t.dog = .gone) := by
  have hinv := reachable_inv h
  refine ⟨exists_return hinv, ?_, ?_⟩
  · intro req s' ops t hcaller hs hrun
    have hn : req.n < s.calls := hinv.fresh req (by rw [hcaller]; rfl)
    have hinv' := step_inv hinv hs
    simp only [step] at hs
    split at hs <;> cases hs
    all_goals exact count_deadlines hinv' hn (by simp [Caller.req]) hrun
  · intro hquit hcaller
    have hbound := hinv.bound
    refine ⟨fun hdog => ⟨_, by simp only [step, hdog, hquit]; rfl, rfl⟩, ?_⟩
    intro op t hs
    -- it is bound to nothing, so that only `quit` is ready
    have hidle : s.dog.req = none := by
      cases hc : s.caller <;> simp_all [Caller.req, Caller.held]
    cases op <;> simp only [step] at hs
    all_goals (try split at hs) <;> (try split_ifs at hs) <;> cases hs <;>
      simp_all [Dog.req, Caller.req]

/-- The context is cancelled during the call and the connection closed before it is taken back. -/
theorem watchdog_lawful_cancelled : ∃ s, system.Reachable s ∧ s.quit = true ∧
    s.caller = .disarming ⟨0, 7, .read⟩ ∧ s.deadlines = [⟨0, 7, .read⟩] ∧
    ∀ s' ops t, step s .disarm = some s' → system.run s' ops = some t →
      t.deadlines.count ⟨0, 7, .read⟩ = s'.deadlines.count ⟨0, 7, .read⟩ := by
  have hrun : ∃ s, system.Reachable s ∧ s.quit = true ∧ s.caller = .disarming ⟨0, 7, .read⟩ ∧
      s.deadlines = [⟨0, 7, .read⟩] := by
    apply System.exists_reachable [.armWatch (some 7) .read, .start, .arm, .cancel 7, .done,
      .setDeadline, .close, .disarmWatch]
    decide +kernel
  rcases hrun with ⟨s, hs, hquit, hcaller, hset⟩
  refine ⟨s, hs, hquit, hcaller, hset, ?_⟩
  intro s' ops t
  exact (watchdog_lawful hs).2.1 _ s' ops t hcaller

end Http1.Watchdog
