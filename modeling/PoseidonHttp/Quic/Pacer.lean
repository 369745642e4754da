import PoseidonHttp.Lib.Transition
import PoseidonHttp.Quic.Recovery

/-!
# Pacing

`pacingCredit`, `refillPacingBucket` and `pacingOnSend` of `cc.go`: a bucket of at most
`kInitialWindow` bytes that time refills at `rate` bytes in a `period`. Both divisions of a refill
round down, and what the first one rounds off is carried as time: `pacingLast` moves by the time the
added bytes took.

The carry is what keeps a caller that polls often from losing time. It is also where bytes come
from nowhere: the time itself is rounded down, and a refill that rounds it off pays for that part
twice. `Paced.lost` adds that up as it is paid, in units of a byte over the period.

* `pacing_follows_rate`: where a second fills the bucket, no more is admitted than the burst and
  the rate allow, `lost` included; and while no poll fills the bucket, no less is credited.
* `second_fills_slow_bucket`: after a second the bucket is full whatever the rate, and a bucket
  that is polled twice at one instant may grow.
-/

namespace Quic

open Transition

/-- The fields of a connection that pace it. An instant is in nanoseconds, and the zero time is
`none`. -/
structure Pacer where
  cwnd : ℕ
  smoothedRTT : ℕ
  pacingRate : ℕ
  pacingLast : Option ℕ
  pacingBudget : ℕ
  deriving DecidableEq

namespace Pacer

/-- A second. -/
def second : ℕ := 1000000000

/-- The whole bytes that `elapsed` earns. -/
def earned (rate elapsed period : ℕ) : ℕ := rate * elapsed % u64 / period

def refillPacingBucket (c : Pacer) (last elapsed rate period : ℕ) : Pacer :=
  let add := earned rate elapsed period
  if add = 0 then c
  else { c with
    pacingLast := some (last + add * period % u64 / rate)
    pacingBudget := min kInitialWindow ((c.pacingBudget + add) % u64) }

/-- `pacingCredit` at a reading of the clock. -/
def pacingCredit (c : Pacer) (now : ℕ) : ℕ × Pacer :=
  if c.cwnd = 0 ∨ c.smoothedRTT = 0 then (kInitialWindow, c)
  else
    let (last, c) :=
      match c.pacingLast with
      | some last => (last, c)
      | none => (now, { c with pacingLast := some now, pacingBudget := kInitialWindow })
    let elapsed := now - last
    let c :=
      if elapsed = 0 then c
      else if elapsed ≥ second then { c with pacingBudget := kInitialWindow, pacingLast := some now }
      else if c.pacingRate ≠ 0 then c.refillPacingBucket last elapsed c.pacingRate second
      else c.refillPacingBucket last elapsed (5 * c.cwnd % u64 / 4) c.smoothedRTT
    (c.pacingBudget, c)

def pacingOnSend (c : Pacer) (size : ℕ) : Pacer :=
  if c.pacingBudget ≤ size then { c with pacingBudget := 0 }
  else { c with pacingBudget := c.pacingBudget - size }

end Pacer

/-- A pacer in use, with what it has let through. -/
structure Paced where
  pacer : Pacer
  /-- The last reading of the clock. -/
  clock : ℕ
  admitted : ℕ
  credited : ℕ
  /-- What the last refill rounded off its time, which the next one pays for again. -/
  slip : ℕ
  /-- What was paid for again. -/
  lost : ℕ
  /-- The polls that left the bucket full. -/
  fills : ℕ
  deriving DecidableEq

namespace Paced

inductive Op where
  | credit (now : ℕ)
  | send (size : ℕ)

/-- What a refill at `now` rounds off its time. -/
def rounded (rate period : ℕ) (last : Option ℕ) (now : ℕ) : ℕ :=
  let elapsed := now - last.getD now
  if elapsed < Pacer.second then Pacer.earned rate elapsed period * period % rate else 0

/-- The clock does not go back, and what is sent is within the credit that was returned, which
is what is left in the bucket. -/
def step (s : Paced) : Op → Option Paced
  | .credit now =>
    let pacer := (s.pacer.pacingCredit now).2
    if s.clock ≤ now then
      some { s with
        pacer
        clock := now
        credited := s.credited + (pacer.pacingBudget - s.pacer.pacingBudget)
        slip := rounded (5 * s.pacer.cwnd / 4) s.pacer.smoothedRTT s.pacer.pacingLast now
        lost := s.lost + s.slip
        fills := if pacer.pacingBudget = kInitialWindow then s.fills + 1 else s.fills }
    else none
  | .send size =>
    if size ≤ s.pacer.pacingBudget then
      some { s with pacer := s.pacer.pacingOnSend size, admitted := s.admitted + size }
    else none

/-- NewReno with a fixed window and round-trip time. -/
def system (cwnd smoothedRTT : ℕ) : System Paced Op where
  init := ⟨⟨cwnd, smoothedRTT, 0, none, 0⟩, 0, 0, 0, 0, 0, 0⟩
  step := step

end Paced

/-- A rate at which no product of a refill leaves its word. -/
structure Pacer.Fits (cwnd period rate : ℕ) : Prop where
  window : 2400 ≤ cwnd
  sampled : 0 < period
  newReno : rate = 5 * cwnd / 4
  word : rate * Pacer.second < u64

namespace Pacer

variable {cwnd period rate last now budget : ℕ}

/-- What a poll does to a bucket that has been polled: a second has gone and it is full, or the
bytes that the time earned are added and the time they took is taken. -/
inductive Polled (rate period last budget now : ℕ) : ℕ → ℕ → ℕ → Prop
  | filled (h : last + second ≤ now) : Polled rate period last budget now now kInitialWindow 0
  | refilled (add : ℕ) (hlow : add * period ≤ rate * (now - last))
    (hhigh : rate * (now - last) < add * period + period) :
    Polled rate period last budget now (last + add * period / rate) (min kInitialWindow (budget + add))
      (add * period % rate)

/-- Within a second nothing leaves its word. -/
theorem refillPacingBucket_eq (hf : Fits cwnd period rate) (hbudget : budget ≤ kInitialWindow)
    (last : ℕ) {elapsed : ℕ} (helapsed : elapsed < second) :
    earned rate elapsed period = rate * elapsed / period ∧
      refillPacingBucket ⟨cwnd, period, 0, some last, budget⟩ last elapsed rate period =
        ⟨cwnd, period, 0, some (last + rate * elapsed / period * period / rate),
          min kInitialWindow (budget + rate * elapsed / period)⟩ := by
  have hword := hf.word
  have hspan : rate * elapsed + rate ≤ rate * second := by
    exact Nat.mul_le_mul_left rate helapsed
  have hearned : earned rate elapsed period = rate * elapsed / period := by
    rw [earned, Nat.mod_eq_of_lt (by omega)]
  refine ⟨hearned, ?_⟩
  rw [refillPacingBucket, hearned]
  split_ifs with hzero
  · rw [hzero, Nat.zero_mul, Nat.zero_div, Nat.add_zero, Nat.add_zero, Nat.min_eq_right hbudget]
  · have hle := Nat.div_le_self (rate * elapsed) period
    have hlow := Nat.div_mul_le_self (rate * elapsed) period
    have hadd : budget + rate * elapsed / period < u64 := by
      simp only [kInitialWindow, second, u64] at hbudget hword hspan ⊢
      omega
    rw [Nat.mod_eq_of_lt (by omega), Nat.mod_eq_of_lt hadd]

theorem pacingCredit_polled (hf : Fits cwnd period rate) (hbudget : budget ≤ kInitialWindow)
    (last now : ℕ) :
    ∃ last' budget', (pacingCredit ⟨cwnd, period, 0, some last, budget⟩ now).2 =
        ⟨cwnd, period, 0, some last', budget'⟩ ∧
      Polled rate period last budget now last' budget'
        (Paced.rounded rate period (some last) now) := by
  have hwindow := hf.window
  have hsampled := hf.sampled
  have hrate : 5 * cwnd % u64 / 4 = rate := by
    have hword := hf.word
    rw [hf.newReno] at hword ⊢
    simp only [second, u64] at hword ⊢
    rw [Nat.mod_eq_of_lt (by omega)]
  unfold pacingCredit Paced.rounded
  rw [if_neg (by simp only [not_or]; omega)]
  simp only [Option.getD_some, ne_eq, not_true_eq_false, if_false, hrate]
  by_cases hlate : second ≤ now - last
  · have hpos : 0 < second := by decide
    rw [if_neg (by omega), if_pos hlate, if_neg (Nat.not_lt.mpr hlate)]
    exact ⟨now, kInitialWindow, rfl, .filled (by omega)⟩
  obtain ⟨hearned, hrefill⟩ := refillPacingBucket_eq hf hbudget last (Nat.not_le.mp hlate)
  rw [if_pos (Nat.not_le.mp hlate), hearned, hrefill]
  refine ⟨_, _, ?_, .refilled _ (Nat.div_mul_le_self _ period) (Nat.lt_div_mul_add hsampled)⟩
  split_ifs with hnone
  · -- no time has gone, and it earns nothing
    rw [hnone, Nat.mul_zero, Nat.zero_div, Nat.zero_mul, Nat.zero_div, Nat.add_zero, Nat.add_zero,
      Nat.min_eq_right hbudget]
  · rfl

variable {last' budget' rem : ℕ} (h : Polled rate period last budget now last' budget' rem)

include h

/-- A poll keeps up with the clock, but for less than a byte and what it rounds off. -/
theorem Polled.keepsUp (hperiod : 0 < period) (hle : last ≤ now) :
    last' ≤ now ∧ budget' ≤ kInitialWindow ∧ rate * last' + rem ≤ rate * now ∧
      rate * now < rate * last' + period + rem := by
  cases h with
  | filled h => omega
  | refilled add hlow hhigh =>
    have htaken := Nat.div_le_of_le_mul hlow
    have hsplit := Nat.div_add_mod (add * period) rate
    have hmoved := Nat.mul_add rate last (add * period / rate)
    have hgone := Nat.mul_sub rate now last
    have hmono := Nat.mul_le_mul_left rate hle
    refine ⟨by omega, Nat.min_le_left _ _, by omega, by omega⟩

/-- It adds what the time it takes is worth, and what it rounds off. -/
theorem Polled.le (hfill : kInitialWindow * period ≤ rate * second) :
    budget' * period + rate * last ≤ budget * period + rate * last' + rem := by
  cases h with
  | filled h =>
    have hgone := Nat.mul_le_mul_left rate h
    rw [Nat.mul_add] at hgone
    omega
  | refilled add hlow hhigh =>
    have hsplit := Nat.div_add_mod (add * period) rate
    have hadded := Nat.mul_le_mul_right period (Nat.min_le_right kInitialWindow (budget + add))
    rw [Nat.add_mul] at hadded
    rw [Nat.mul_add]
    omega

/-- A poll that does not fill the bucket credits all the time there is, to less than a byte. -/
theorem Polled.ge (hfull : budget' ≠ kInitialWindow) :
    rate * last' ≤ rate * last + (budget' - budget) * period ∧
      rate * now < rate * last + (budget' - budget) * period + period := by
  cases h with
  | filled h => exact absurd rfl hfull
  | refilled add hlow hhigh =>
    have hadded : min kInitialWindow (budget + add) - budget = add := by omega
    have hsplit := Nat.div_add_mod (add * period) rate
    have hgone := Nat.mul_sub rate now last
    rw [hadded, Nat.mul_add]
    omega

end Pacer

namespace Paced

open Pacer (Fits Polled second)

variable {cwnd period rate : ℕ} {s₀ s s' : Paced}

/-- The bucket holds no more than its size, and its time is that of the clock, but for less than a
byte and what the last refill rounded off. -/
structure Ready (cwnd period rate : ℕ) (s : Paced) : Prop where
  pacer : s.pacer = ⟨cwnd, period, 0, s.pacer.pacingLast, s.pacer.pacingBudget⟩
  budget : s.pacer.pacingBudget ≤ kInitialWindow
  idle : s.pacer.pacingLast = none → s.pacer.pacingBudget = 0
  last : ∀ last, s.pacer.pacingLast = some last →
    last ≤ s.clock ∧ rate * last + s.slip ≤ rate * s.clock ∧
      rate * s.clock < rate * last + period + s.slip

/-- From `s₀` on no more was admitted than the burst and the rate allow; and while no poll filled
the bucket, all the time was credited. -/
structure Since (cwnd period rate : ℕ) (s₀ s : Paced) : Prop extends Ready cwnd period rate s where
  clock : s₀.clock ≤ s.clock
  fills : s₀.fills ≤ s.fills
  lost : s₀.lost ≤ s.lost
  unpolled : s.pacer.pacingLast = none → s.admitted = s₀.admitted
  within : kInitialWindow * period ≤ rate * second → ∀ last, s.pacer.pacingLast = some last →
    (s.admitted + s.pacer.pacingBudget) * period + rate * s₀.clock + s₀.lost <
      (s₀.admitted + kInitialWindow) * period + period + s.lost + s.slip + rate * last
  taken : s.fills = s₀.fills → ∀ last, s.pacer.pacingLast = some last →
    s₀.credited * period + rate * last ≤ s.credited * period + rate * s₀.clock
  gone : s.fills = s₀.fills →
    s₀.credited * period + rate * s.clock < s.credited * period + period + rate * s₀.clock

/-- What a step can do. -/
inductive Steps (cwnd period rate : ℕ) (s : Paced) : Paced → Prop
  | started (now : ℕ) (hlast : s.pacer.pacingLast = none) (hclock : s.clock ≤ now) :
    Steps cwnd period rate s { s with
      pacer := ⟨cwnd, period, 0, some now, kInitialWindow⟩
      clock := now
      credited := s.credited + (kInitialWindow - s.pacer.pacingBudget)
      slip := 0
      lost := s.lost + s.slip
      fills := s.fills + 1 }
  | polled {last last' budget' rem : ℕ} (now : ℕ) (hlast : s.pacer.pacingLast = some last)
    (hclock : s.clock ≤ now)
    (h : Polled rate period last s.pacer.pacingBudget now last' budget' rem) :
    Steps cwnd period rate s { s with
      pacer := ⟨cwnd, period, 0, some last', budget'⟩
      clock := now
      credited := s.credited + (budget' - s.pacer.pacingBudget)
      slip := rem
      lost := s.lost + s.slip
      fills := if budget' = kInitialWindow then s.fills + 1 else s.fills }
  | sent (size : ℕ) (h : size ≤ s.pacer.pacingBudget) :
    Steps cwnd period rate s { s with
      pacer := ⟨cwnd, period, 0, s.pacer.pacingLast, s.pacer.pacingBudget - size⟩
      admitted := s.admitted + size }

section Runs

variable (hf : Fits cwnd period rate)

include hf

theorem step_steps (hr : Ready cwnd period rate s) {op : Op}
    (h : s.step op = some s') : Steps cwnd period rate s s' := by
  obtain ⟨pacer, clock, admitted, credited, slip, lost, fills⟩ := s
  obtain ⟨window, rtt, _, last, budget⟩ := pacer
  obtain ⟨rfl, rfl, rfl, -, -⟩ := Pacer.mk.inj hr.pacer
  cases op with
  | credit now =>
    simp only [step, Transition.guarded] at h
    obtain ⟨hclock, rfl⟩ := h
    rw [← hf.newReno]
    cases last with
    | none =>
      have hwindow := hf.window
      have hsampled := hf.sampled
      have hcredit : (Pacer.pacingCredit ⟨window, rtt, 0, none, budget⟩ now).2 =
          ⟨window, rtt, 0, some now, kInitialWindow⟩ := by
        rw [Pacer.pacingCredit, if_neg (by simp only [not_or]; omega)]
        simp
      have hrounded : rounded rate rtt none now = 0 := by simp [rounded, Pacer.earned]
      rw [hcredit, hrounded]
      exact .started now rfl hclock
    | some last =>
      obtain ⟨last', budget', hcredit, hpolled⟩ := Pacer.pacingCredit_polled hf hr.budget last now
      rw [hcredit]
      exact .polled now rfl hclock hpolled
  | send size =>
    simp only [step, Transition.guarded] at h
    obtain ⟨hsize, rfl⟩ := h
    have hsend : Pacer.pacingOnSend ⟨window, rtt, 0, last, budget⟩ size =
        ⟨window, rtt, 0, last, budget - size⟩ := by
      unfold Pacer.pacingOnSend
      split_ifs with hall
      · rw [Nat.sub_eq_zero_of_le hall]
      · rfl
    rw [hsend]
    exact .sent size hsize

theorem Since.start (hr : Ready cwnd period rate s) : Since cwnd period rate s s := by
  have hperiod := hf.sampled
  refine ⟨hr, Nat.le_refl _, Nat.le_refl _, Nat.le_refl _, fun _ => rfl, ?_, ?_, fun _ => by omega⟩
  · intro _ last hlast
    have hbehind := (hr.last last hlast).2.2
    have hbudget := Nat.mul_le_mul_right period (Nat.add_le_add_left hr.budget s.admitted)
    omega
  · intro _ last hlast
    have hle := Nat.mul_le_mul_left rate (hr.last last hlast).1
    omega

theorem Since.steps (hs : Since cwnd period rate s₀ s)
    (h : Steps cwnd period rate s s') : Since cwnd period rate s₀ s' := by
  have hperiod := hf.sampled
  have hclock := hs.clock
  have hfills := hs.fills
  have hlost := hs.lost
  cases h with
  | started now hlast hnow =>
    refine ⟨⟨rfl, Nat.le_refl _, nofun, ?_⟩, ?_, ?_, ?_, nofun, ?_, ?_, ?_⟩ <;> dsimp only
    · rintro _ ⟨⟩
      omega
    · omega
    · omega
    · omega
    · rintro _ _ ⟨⟩
      have hmono := Nat.mul_le_mul_left rate (Nat.le_trans hclock hnow)
      rw [hs.unpolled hlast]
      omega
    · intro hsame
      omega
    · intro hsame
      omega
  | polled now hlast hnow hpolled =>
    obtain ⟨hle, -⟩ := hs.last _ hlast
    obtain ⟨hlast', hbudget, htaken, hrate⟩ := hpolled.keepsUp hperiod (Nat.le_trans hle hnow)
    -- a poll that does not count as a fill leaves room
    have hroom := fun hfull => hpolled.ge hfull
    refine ⟨⟨rfl, hbudget, nofun, ?_⟩, ?_, ?_, ?_, nofun, ?_, ?_, ?_⟩ <;> dsimp only
    · rintro _ ⟨⟩
      exact ⟨hlast', htaken, hrate⟩
    · omega
    · split_ifs <;> omega
    · omega
    · rintro hfill _ ⟨⟩
      have hbefore := hs.within hfill _ hlast
      have hadded := hpolled.le hfill
      simp only [Nat.add_mul] at hbefore ⊢
      omega
    · rintro hsame _ ⟨⟩
      split_ifs at hsame with hfull
      · omega
      · have hbefore := hs.taken hsame _ hlast
        obtain ⟨hmoved, -⟩ := hroom hfull
        rw [Nat.add_mul]
        omega
    · intro hsame
      split_ifs at hsame with hfull
      · omega
      · have hbefore := hs.taken hsame _ hlast
        obtain ⟨-, hgone⟩ := hroom hfull
        rw [Nat.add_mul]
        omega
  | sent size hsize =>
    have hidle : s.pacer.pacingLast = none → size = 0 := by
      intro hlast
      have hnone := hs.idle hlast
      omega
    have hsame : s.admitted + size + (s.pacer.pacingBudget - size) =
        s.admitted + s.pacer.pacingBudget := by omega
    refine ⟨⟨rfl, Nat.le_trans (Nat.sub_le _ _) hs.budget, ?_, hs.last⟩, hclock, hfills, hlost, ?_, ?_,
      hs.taken, hs.gone⟩ <;> dsimp only
    · intro hlast
      rw [hs.idle hlast, Nat.zero_sub]
    · intro hlast
      rw [hidle hlast]
      exact hs.unpolled hlast
    · rw [hsame]
      exact hs.within

theorem Since.run {ops : List Op} (hs : Since cwnd period rate s₀ s)
    (h : (system cwnd period).run s ops = some s') : Since cwnd period rate s₀ s' := by
  induction ops generalizing s with
  | nil =>
    obtain rfl := Option.some.inj h
    exact hs
  | cons op ops ih =>
    obtain ⟨t, hone, hrest⟩ := Option.bind_eq_some_iff.mp h
    exact ih (hs.steps hf (step_steps hf hs.toReady hone)) hrest

theorem ready_of_reachable (h : (system cwnd period).Reachable s) : Ready cwnd period rate s := by
  refine h.invariant ?_ ?_
  · exact ⟨rfl, Nat.zero_le _, fun _ => rfl, nofun⟩
  · intro s op s' hr _ hstep
    exact ((Since.start hf hr).steps hf (step_steps hf hr hstep)).toReady

end Runs

/-- From any state on, where a second fills the bucket, no more bytes are admitted than a full
bucket and what the rate earns, with what the refills since have paid for again because it was
rounded off; and while no poll leaves the bucket full, no fewer are credited than the rate earns. -/
theorem pacing_follows_rate {cwnd smoothedRTT : ℕ} (hwindow : 2400 ≤ cwnd) (hsampled : 0 < smoothedRTT)
    (hword : 5 * cwnd / 4 * second < u64) {s s' : Paced} {ops : List Op}
    (h : (system cwnd smoothedRTT).Reachable s) (hrun : (system cwnd smoothedRTT).run s ops = some s') :
    (kInitialWindow * smoothedRTT ≤ 5 * cwnd / 4 * second → s'.admitted ≤ s.admitted + kInitialWindow +
      (5 * cwnd / 4 * (s'.clock - s.clock) + (s'.lost - s.lost)) / smoothedRTT + 1) ∧
    (s'.fills = s.fills →
      s.credited + 5 * cwnd / 4 * (s'.clock - s.clock) / smoothedRTT ≤ s'.credited) := by
  have hf : Fits cwnd smoothedRTT (5 * cwnd / 4) := ⟨hwindow, hsampled, rfl, hword⟩
  have hs := (Since.start hf (ready_of_reachable hf h)).run hf hrun
  generalize 5 * cwnd / 4 = rate at hs ⊢
  have hgone := Nat.mul_sub rate s'.clock s.clock
  have hclock := Nat.mul_le_mul_left rate hs.clock
  refine ⟨?_, ?_⟩
  · intro hfill
    cases hlast : s'.pacer.pacingLast with
    | none =>
      rw [hs.unpolled hlast, Nat.add_assoc, Nat.add_assoc]
      exact Nat.le_add_right _ _
    | some last =>
      have hwithin := hs.within hfill last hlast
      have hle := (hs.last last hlast).2.1
      have hlost := hs.lost
      have hfloor := Nat.lt_div_mul_add (a := rate * (s'.clock - s.clock) + (s'.lost - s.lost))
        hsampled
      apply Nat.le_of_lt_succ
      apply Nat.lt_of_mul_lt_mul_right (a := smoothedRTT)
      simp only [Nat.add_mul, Nat.succ_eq_add_one, Nat.one_mul] at hwithin ⊢
      omega
  · intro hsame
    have hcredited := hs.gone hsame
    have hfloor := Nat.div_mul_le_self (rate * (s'.clock - s.clock)) smoothedRTT
    apply Nat.le_of_lt_succ
    apply Nat.lt_of_mul_lt_mul_right (a := smoothedRTT)
    simp only [Nat.add_mul, Nat.succ_eq_add_one, Nat.one_mul]
    omega

/-- A bucket that was emptied at once and is then polled while it fills. -/
theorem pacing_follows_rate_trickle :
    ∃ s s', (system 2400 3000000).Reachable s ∧
      (system 2400 3000000).run s [.credit 1500, .send 1, .credit 2999] = some s' ∧
      s'.admitted = 12001 ∧ s'.admitted ≤ s.admitted + kInitialWindow +
        (3000 * (s'.clock - s.clock) + (s'.lost - s.lost)) / 3000000 + 1 ∧
      s.credited + 3000 * (s'.clock - s.clock) / 3000000 ≤ s'.credited := by
  have hrun : ∃ s, (system 2400 3000000).Reachable s ∧
      ∃ s' ∈ (system 2400 3000000).run s [.credit 1500, .send 1, .credit 2999],
        s'.fills = s.fills ∧ s'.admitted = 12001 := by
    apply System.exists_reachable [.credit 0, .send 12000]
    decide +kernel
  obtain ⟨s, hreach, s', hs', hfills, hadmitted⟩ := hrun
  obtain ⟨hupper, hlower⟩ := pacing_follows_rate (by decide) (by decide) (by decide) hreach hs'
  exact ⟨s, s', hreach, hs', hadmitted, hupper (by decide), hlower hfills⟩

/-- With a round-trip time of a second the bucket fills four times as fast as the rate allows, and
with one of 2000 ns every poll at one instant adds a byte. -/
theorem second_fills_slow_bucket :
    (∃ ops s, (system 2400 1000000000).run (system 2400 1000000000).init ops = some s ∧
      kInitialWindow + 5 * 2400 / 4 * s.clock / 1000000000 + 1 < s.admitted) ∧
    ∃ ops s, (system 2400 2000).run (system 2400 2000).init ops = some s ∧
      kInitialWindow + 5 * 2400 / 4 * s.clock / 2000 + 1 < s.admitted := by
  constructor
  · refine ⟨_, System.exists_run [.credit 0, .send 12000, .credit 1000000000, .send 12000] ?_⟩
    decide +kernel
  · refine ⟨_, System.exists_run
      [.credit 0, .send 12000, .credit 1, .credit 1, .credit 1, .send 3] ?_⟩
    decide +kernel

end Paced

end Quic
