import PoseidonHttp.Quic.StreamLife

/-!
# Waiting for stream credit

`OpenStreamContext` waits when the peer's limit on streams is reached. The wake-up is a channel
with one slot, `streamCredit`, and a grant of many streams fills it once: who takes the token
tries again, and whoever opens a stream with credit left puts a token back. A token may also be
taken in vain, for a grant of unidirectional streams or for a slot that somebody else took.

`Unstranded` says that a caller who waits while there is credit is on somebody's mind: the
channel holds a token, or a caller who took one has yet to try. What the callers do on their own
comes to an end, and when it does the credit is used up or nobody waits.
-/

namespace Quic

open Transition

/-- Where a caller of `OpenStreamContext` stands: before a call of `openStreamLocked`, with a
token taken or for the first time; in `waitStreamCredit`; or returned, with a stream or with the
error of its context or of the connection. -/
inductive Opener where
  | trying (woken : Bool)
  | waiting
  | opened (h : ℕ)
  | gaveUp
  deriving DecidableEq, Repr

/-- A connection, the slot of `streamCredit`, and the callers there have been. -/
structure Openers where
  conn : Conn
  token : Bool
  callers : List Opener

namespace Openers

/-- `openStreamLocked`: with credit left after it, the next caller is woken. -/
def openStreamLocked (o : Openers) (wire : Recovery.Wire) : Except Error ℕ × Openers :=
  match o.conn.openStream wire with
  | (.ok h, c) =>
    (.ok h, { o with
      conn := c
      token := o.token || decide (c.openedBidi < c.maxStreamsBidi) })
  | (.error err, c) => (.error err, { o with conn := c })

/-- What the caller does with the answer: any error but the limit is returned. -/
def answered : Except Error ℕ → Opener
  | .ok h => .opened h
  | .error .tooManyStreams => .waiting
  | .error _ => .gaveUp

/-- `OnMaxStreams` raises the limit of the kind. -/
def raises (c : Conn) (uni : Bool) (maximum : ℕ) : Bool :=
  decide (maximum ≤ maxStreamsLimit) &&
    if uni then decide (maximum > c.maxStreamsUni) else decide (maximum > c.maxStreamsBidi)

/-- `OnMaxStreams`: a raised limit of either kind wakes a caller. -/
def onMaxStreams (o : Openers) (uni : Bool) (maximum : ℕ) : Openers :=
  { o with
    conn := Conn.handled (o.conn.onMaxStreams uni maximum)
    token := o.token || raises o.conn uni maximum }

inductive Op where
  /-- a caller comes -/
  | call
  /-- a caller calls `openStreamLocked` -/
  | attempt (i : ℕ) (wire : Recovery.Wire)
  /-- a caller that waits takes the token -/
  | take (i : ℕ)
  /-- the context of a caller that waits ends, or the connection does -/
  | giveUp (i : ℕ)
  | openStream (wire : Recovery.Wire)
  | onMaxStreams (uni : Bool) (maximum : ℕ)

/-- The caller at `i` moves on to `a`. -/
def become (o : Openers) (i : ℕ) (a : Opener) : Openers :=
  { o with callers := o.callers.modify i fun _ => a }

def step (o : Openers) : Op → Option Openers
  | .call => some { o with callers := o.callers ++ [.trying false] }
  | .attempt i wire =>
    match o.callers[i]? with
    | some (.trying _) =>
      let (result, o) := o.openStreamLocked wire
      some (o.become i (answered result))
    | _ => none
  | .take i =>
    if o.callers[i]? = some .waiting ∧ o.token = true then
      some { o.become i (.trying true) with token := false }
    else none
  | .giveUp i => if o.callers[i]? = some .waiting then some (o.become i .gaveUp) else none
  | .openStream wire => some (o.openStreamLocked wire).2
  | .onMaxStreams uni maximum => some (o.onMaxStreams uni maximum)

def system (params : Params) : System Openers Op := ⟨⟨.new params, false, []⟩, step⟩

/-- Streams that may still be opened. -/
def credit (o : Openers) : ℕ := o.conn.maxStreamsBidi - o.conn.openedBidi

/-! ## What the parts do -/

theorem emitStreamsBlocked_maxStreamsBidi (c : Conn) (uni : Bool) (limit : ℕ)
    (wire : Recovery.Wire) :
    (c.emitStreamsBlocked uni limit wire).maxStreamsBidi = c.maxStreamsBidi := by
  have hwrite : ∀ frame, (c.writeAppFrames frame wire).2.maxStreamsBidi = c.maxStreamsBidi := by
    intro frame
    unfold Conn.writeAppFrames
    split_ifs <;> rfl
  unfold Conn.emitStreamsBlocked
  split_ifs
  · rfl
  · rfl
  · split <;> rename_i heq <;>
      exact (congrArg (fun res : Option Error × Conn => res.2.maxStreamsBidi) heq).symm.trans
        (hwrite _)

/-- Opening takes one slot when there is one, and is refused at the limit only. -/
theorem openStreamLocked_cases (o : Openers) (wire : Recovery.Wire) :
    (o.conn.openedBidi < o.conn.maxStreamsBidi ∧
      ∃ c, o.openStreamLocked wire = (.ok o.conn.streams.length, { o with
        conn := c
        token := o.token || decide (c.openedBidi < c.maxStreamsBidi) }) ∧
      c.openedBidi = o.conn.openedBidi + 1 ∧ c.maxStreamsBidi = o.conn.maxStreamsBidi) ∨
    (o.conn.maxStreamsBidi ≤ o.conn.openedBidi ∧
      ∃ c, o.openStreamLocked wire = (.error .tooManyStreams, { o with conn := c }) ∧
      c.openedBidi = o.conn.openedBidi ∧ c.maxStreamsBidi = o.conn.maxStreamsBidi) := by
  unfold openStreamLocked Conn.openStream
  by_cases hfull : o.conn.openedBidi ≥ o.conn.maxStreamsBidi
  · right
    rw [if_pos hfull]
    have hcalm := Conn.emitStreamsBlocked_calm o.conn false o.conn.maxStreamsBidi wire
    have hmax := emitStreamsBlocked_maxStreamsBidi o.conn false o.conn.maxStreamsBidi wire
    exact ⟨hfull, _, rfl, hcalm.openedBidi, hmax⟩
  · left
    rw [if_neg hfull]
    exact ⟨Nat.lt_of_not_le hfull, _, rfl, rfl, rfl⟩

/-- What a step of one of the callers does to the two counters, the token and the callers. -/
inductive Own (o o' : Openers) : Prop
  | took (i : ℕ) (hused : o'.conn.openedBidi = o.conn.openedBidi)
      (hlimit : o'.conn.maxStreamsBidi = o.conn.maxStreamsBidi)
      (hwaits : o.callers[i]? = some .waiting) (htoken : o.token = true)
      (hempty : o'.token = false)
      (hcallers : o'.callers = o.callers.modify i fun _ => .trying true)
  | gaveUp (i : ℕ) (hused : o'.conn.openedBidi = o.conn.openedBidi)
      (hlimit : o'.conn.maxStreamsBidi = o.conn.maxStreamsBidi) (htoken : o'.token = o.token)
      (hwaits : o.callers[i]? = some .waiting)
      (hcallers : o'.callers = o.callers.modify i fun _ => .gaveUp)
  | opened (i : ℕ) (woken : Bool) (h : ℕ) (hcredit : o.conn.openedBidi < o.conn.maxStreamsBidi)
      (hused : o'.conn.openedBidi = o.conn.openedBidi + 1)
      (hlimit : o'.conn.maxStreamsBidi = o.conn.maxStreamsBidi)
      (htoken : o'.conn.openedBidi < o'.conn.maxStreamsBidi → o'.token = true)
      (htries : o.callers[i]? = some (.trying woken))
      (hcallers : o'.callers = o.callers.modify i fun _ => .opened h)
  | refused (i : ℕ) (woken : Bool) (hfull : o.conn.maxStreamsBidi ≤ o.conn.openedBidi)
      (hused : o'.conn.openedBidi = o.conn.openedBidi)
      (hlimit : o'.conn.maxStreamsBidi = o.conn.maxStreamsBidi) (htoken : o'.token = o.token)
      (htries : o.callers[i]? = some (.trying woken))
      (hcallers : o'.callers = o.callers.modify i fun _ => .waiting)

/-- What any step does to them. -/
inductive Move (o o' : Openers) : Prop
  | own (h : Own o o')
  | came (hused : o'.conn.openedBidi = o.conn.openedBidi)
      (hlimit : o'.conn.maxStreamsBidi = o.conn.maxStreamsBidi) (htoken : o'.token = o.token)
      (hcallers : o'.callers = o.callers ++ [.trying false])
  | openedElsewhere
      (htoken : o'.conn.openedBidi < o'.conn.maxStreamsBidi → o'.token = true)
  | refusedElsewhere (hfull : o'.conn.maxStreamsBidi ≤ o'.conn.openedBidi)
  | granted (hused : o'.conn.openedBidi = o.conn.openedBidi)
      (htoken : o'.conn.maxStreamsBidi ≠ o.conn.maxStreamsBidi → o'.token = true)
      (hkept : o.token = true → o'.token = true) (hcallers : o'.callers = o.callers)

/-- The limit on bidirectional streams changes only by a grant that raises it. -/
theorem onMaxStreams_maxStreamsBidi (c : Conn) (uni : Bool) (maximum : ℕ)
    (h : (c.onMaxStreams uni maximum).2.maxStreamsBidi ≠ c.maxStreamsBidi) :
    raises c uni maximum = true := by
  unfold Conn.onMaxStreams at h
  dsimp only at h
  split_ifs at h with hbad huni hraise hraise
  · exact absurd rfl h
  · exact absurd rfl h
  · exact absurd rfl h
  · have hmax : maximum > c.maxStreamsBidi := hraise
    simp [raises, huni, hmax, Nat.le_of_not_lt hbad]
  · exact absurd rfl h

/-- A grant is never lost: where the limit changes there is a token after it. -/
theorem onMaxStreams_move (o : Openers) (uni : Bool) (maximum : ℕ) :
    Move o (o.onMaxStreams uni maximum) := by
  refine .granted (Conn.onMaxStreams_calm o.conn uni maximum).openedBidi ?_ ?_ rfl
  · intro hchanged
    have hraises := onMaxStreams_maxStreamsBidi o.conn uni maximum hchanged
    simp [onMaxStreams, hraises]
  · intro htoken
    simp [onMaxStreams, htoken]

/-- A step of one of the callers. -/
def Op.OfCaller : Op → Prop
  | .attempt .. | .take _ | .giveUp _ => True
  | .call | .openStream _ | .onMaxStreams .. => False

variable {o o' : Openers}

theorem step_own {op : Op} (hop : op.OfCaller) (h : o.step op = some o') :
    Own o o' := by
  cases op with
  | call | openStream | onMaxStreams => exact absurd hop id
  | attempt i wire =>
    simp only [step] at h
    split at h
    · rename_i woken htries
      rcases openStreamLocked_cases o wire with
        ⟨hcredit, c, heq, hused, hlimit⟩ | ⟨hfull, c, heq, hused, hlimit⟩
      · rw [heq] at h
        cases h
        refine .opened i woken _ hcredit hused hlimit ?_ htries rfl
        intro hleft
        exact Bool.or_eq_true_iff.mpr (.inr (decide_eq_true hleft))
      · rw [heq] at h
        cases h
        exact .refused i woken hfull hused hlimit rfl htries rfl
    · cases h
  | take i =>
    simp only [step] at h
    split_ifs at h with hcan
    cases h
    exact .took i rfl rfl hcan.1 hcan.2 rfl rfl
  | giveUp i =>
    simp only [step] at h
    split_ifs at h with hwaits
    cases h
    exact .gaveUp i rfl rfl rfl hwaits rfl

theorem step_move {op : Op} (h : o.step op = some o') : Move o o' := by
  cases op with
  | attempt | take | giveUp => exact .own (step_own (by trivial) h)
  | call =>
    cases h
    exact .came rfl rfl rfl rfl
  | openStream wire =>
    cases h
    rcases openStreamLocked_cases o wire with
      ⟨hcredit, c, heq, hused, hlimit⟩ | ⟨hfull, c, heq, hused, hlimit⟩
    · rw [heq]
      apply Move.openedElsewhere
      intro hleft
      exact Bool.or_eq_true_iff.mpr (.inr (decide_eq_true hleft))
    · rw [heq]
      apply Move.refusedElsewhere
      rw [hused, hlimit]
      exact hfull
  | onMaxStreams uni maximum =>
    cases h
    exact onMaxStreams_move o uni maximum

/-! ## Nobody who waits is forgotten -/

/-- While there is credit and somebody waits, there is a token, or a caller who took one has
yet to try. -/
def Unstranded (o : Openers) : Prop :=
  o.conn.openedBidi < o.conn.maxStreamsBidi → .waiting ∈ o.callers →
    o.token = true ∨ .trying true ∈ o.callers

theorem Own.unstranded (h : Own o o') (hi : o.Unstranded) :
    o'.Unstranded := by
  intro hcredit hwaiting
  cases h with
  | took i hused hlimit hwaits htoken hempty hcallers =>
    -- the one who took it is the one who has yet to try
    right
    rw [hcallers]
    apply List.mem_of_getElem? (i := i)
    simp [hwaits]
  | gaveUp i hused hlimit htoken hwaits hcallers =>
    rw [hused, hlimit] at hcredit
    rw [htoken, hcallers]
    refine (hi hcredit (List.mem_of_getElem? hwaits)).imp id ?_
    exact Modify.mem_modify_of_ne hwaits (by decide)
  | opened i woken h hroom hused hlimit htoken htries hcallers => exact .inl (htoken hcredit)
  | refused i woken hfull hused hlimit htoken htries hcallers =>
    rw [hused, hlimit] at hcredit
    exact absurd hcredit (Nat.not_lt.mpr hfull)

theorem Move.unstranded (h : Move o o') (hi : o.Unstranded) :
    o'.Unstranded := by
  intro hcredit hwaiting
  cases h with
  | own h => exact h.unstranded hi hcredit hwaiting
  | came hused hlimit htoken hcallers =>
    rw [hused, hlimit] at hcredit
    rw [hcallers] at hwaiting
    have hmem : Opener.waiting ∈ o.callers := by simpa using hwaiting
    rw [htoken, hcallers, List.mem_append]
    exact (hi hcredit hmem).imp id .inl
  | openedElsewhere htoken => exact .inl (htoken hcredit)
  | refusedElsewhere hfull => exact absurd hcredit (Nat.not_lt.mpr hfull)
  | granted hused htoken hkept hcallers =>
    by_cases hlimit : o'.conn.maxStreamsBidi = o.conn.maxStreamsBidi
    · rw [hused, hlimit] at hcredit
      rw [hcallers] at hwaiting ⊢
      exact (hi hcredit hwaiting).imp hkept id
    · exact .inl (htoken hlimit)

variable {params : Params}

theorem unstranded_of_reachable (h : (system params).Reachable o) :
    o.Unstranded := by
  refine h.invariant ?_ ?_
  · intro _ hwaiting
    exact absurd hwaiting (by simp [system])
  · intro o op o' hi _ hstep
    exact (step_move hstep).unstranded hi

/-! ## What the callers do on their own -/

/-- The callers are at rest: none is about to try, and none that waits has a token to take. -/
def Resting (o : Openers) : Prop :=
  (∀ i wire, o.step (.attempt i wire) = none) ∧ ∀ i, o.step (.take i) = none

/-- A caller that has its stream. -/
def isServed : Opener → ℕ
  | .opened _ => 1
  | .trying _ | .waiting | .gaveUp => 0

/-- A caller that has not returned. -/
def isPending : Opener → ℕ
  | .trying _ | .waiting => 1
  | .opened _ | .gaveUp => 0

/-- A caller that returned without a stream. -/
def isGone : Opener → ℕ
  | .gaveUp => 1
  | .trying _ | .waiting | .opened _ => 0

/-- The tries and waits of a caller: a try may end in a wait. -/
def aheadOf : Opener → ℕ
  | .trying _ => 2
  | .waiting => 1
  | .opened _ | .gaveUp => 0

def tally (f : Opener → ℕ) (o : Openers) : ℕ := (o.callers.map f).sum

/-- A bound on the steps the callers can take: every stream that can be opened puts back at
most one token, and a token is worth one try. -/
def ahead (o : Openers) : ℕ := 2 * o.credit + 2 * o.token.toNat + o.tally aheadOf

/-- What the steps of the callers keep: credit goes to those they serve, and no caller is
lost. -/
structure Spent (o o' : Openers) : Prop where
  le : o'.credit ≤ o.credit
  credit : o'.tally isServed + o'.credit = o.tally isServed + o.credit
  callers : o'.tally isServed + o'.tally isPending + o'.tally isGone =
    o.tally isServed + o.tally isPending + o.tally isGone

theorem tally_modify {i : ℕ} {a b : Opener} (ha : o.callers[i]? = some a)
    (hcallers : o'.callers = o.callers.modify i fun _ => b) (f : Opener → ℕ) :
    o'.tally f + f a = o.tally f + f b := by
  unfold tally
  rw [hcallers]
  exact Modify.sum_map_modify ha f fun _ => b

/-- The change of one caller, in the four counts. -/
theorem Own.count {i : ℕ} {a b : Opener} (ha : o.callers[i]? = some a)
    (hcallers : o'.callers = o.callers.modify i fun _ => b)
    (hahead : 2 * o'.credit + 2 * o'.token.toNat + aheadOf b + 1 ≤
      2 * o.credit + 2 * o.token.toNat + aheadOf a) (hcredit : isServed b + o'.credit = o.credit)
    (hserved : isServed a = 0)
    (hcount : isServed b + isPending b + isGone b = isServed a + isPending a + isGone a) :
    o'.ahead + 1 ≤ o.ahead ∧ Spent o o' := by
  have htally := tally_modify ha hcallers
  have h₁ := htally aheadOf
  have h₂ := htally isServed
  have h₃ := htally isPending
  have h₄ := htally isGone
  unfold ahead
  refine ⟨?_, ?_, ?_, ?_⟩ <;> omega

/-- A caller's step uses up some of what was ahead. -/
theorem Own.progress (h : Own o o') : o'.ahead + 1 ≤ o.ahead ∧ Spent o o' := by
  have hcredit : ∀ {c : Conn}, c.openedBidi = o.conn.openedBidi →
      c.maxStreamsBidi = o.conn.maxStreamsBidi →
      c.maxStreamsBidi - c.openedBidi = o.credit := by
    intro c hused hlimit
    rw [hused, hlimit, credit]
  cases h with
  | took i hused hlimit hwaits htoken hempty hcallers =>
    have hsame : o'.credit = o.credit := hcredit hused hlimit
    apply Own.count hwaits hcallers
    · rw [htoken, hempty]
      simp only [aheadOf, Bool.toNat_true, Bool.toNat_false]
      omega
    · rw [hsame]
      exact Nat.zero_add _
    · rfl
    · rfl
  | gaveUp i hused hlimit htoken hwaits hcallers =>
    have hsame : o'.credit = o.credit := hcredit hused hlimit
    apply Own.count hwaits hcallers
    · rw [htoken]
      simp only [aheadOf]
      omega
    · rw [hsame]
      exact Nat.zero_add _
    · rfl
    · rfl
  | opened i woken h hroom hused hlimit htoken htries hcallers =>
    -- the slot taken pays for the token put back
    have hless : o'.credit + 1 = o.credit := by
      unfold credit
      omega
    have htoken := Bool.toNat_le o'.token
    apply Own.count htries hcallers
    · simp only [aheadOf]
      omega
    · simp only [isServed]
      omega
    · rfl
    · rfl
  | refused i woken hfull hused hlimit htoken htries hcallers =>
    have hsame : o'.credit = o.credit := hcredit hused hlimit
    apply Own.count htries hcallers
    · rw [htoken]
      simp only [aheadOf]
      omega
    · rw [hsame]
      exact Nat.zero_add _
    · rfl
    · rfl

/-- Steps of the callers alone: there are no more of them than were ahead. -/
theorem run_of_callers {ops : List Op} (hops : ∀ op ∈ ops, op.OfCaller)
    (h : (system params).run o ops = some o') :
    o'.ahead + ops.length ≤ o.ahead ∧ Spent o o' := by
  induction ops generalizing o with
  | nil =>
    cases h
    exact ⟨le_refl _, le_refl _, rfl, rfl⟩
  | cons op ops ih =>
    simp only [System.run, Option.bind_eq_some_iff] at h
    rcases h with ⟨t, hstep, hrest⟩
    rcases (step_own (hops op (by simp)) hstep).progress with ⟨hahead, hspent⟩
    rcases ih (fun op h => hops op (by simp [h])) hrest with ⟨hlater, hspent'⟩
    rw [List.length_cons]
    refine ⟨by omega, ?_, ?_, ?_⟩
    · exact hspent'.le.trans hspent.le
    · exact hspent'.credit.trans hspent.credit
    · exact hspent'.callers.trans hspent.callers

/-- At rest the credit is used up, or every caller has returned. -/
theorem Resting.done (hrest : o.Resting) (hi : o.Unstranded) :
    o.credit = 0 ∨ o.tally isPending = 0 := by
  -- nobody is about to try: that would be a step
  have hidle : ∀ woken, .trying woken ∉ o.callers := by
    intro woken htries
    rcases List.mem_iff_getElem?.mp htries with ⟨i, hi⟩
    have hstep := hrest.1 i ⟨fun _ => .failed, fun _ => 0, 0⟩
    simp [step, hi] at hstep
  by_cases hwaiting : Opener.waiting ∈ o.callers
  · left
    by_contra hcredit
    have hroom := Nat.sub_pos_iff_lt.mp (Nat.pos_of_ne_zero hcredit)
    rcases hi hroom hwaiting with htoken | htries
    · rcases List.mem_iff_getElem?.mp hwaiting with ⟨i, hi⟩
      have hstep := hrest.2 i
      simp [step, hi, htoken] at hstep
    · exact hidle true htries
  · right
    apply List.sum_eq_zero
    intro n hn
    rcases List.mem_map.mp hn with ⟨a, ha, rfl⟩
    cases a with
    | trying woken => exact absurd ha (hidle woken)
    | waiting => exact absurd ha hwaiting
    | opened | gaveUp => rfl

/-- No caller is stranded while there is credit. In every reachable state with credit in which
somebody waits, the channel holds a token or a caller that took one has yet to try. From there the
callers can take boundedly many steps on their own; once they are at rest, all the credit there
was has gone to them, or all of them that did not give up have a stream. -/
theorem no_opener_stranded {params : Params} {o : Openers} (h : (system params).Reachable o) :
    (o.conn.openedBidi < o.conn.maxStreamsBidi → .waiting ∈ o.callers →
      o.token = true ∨ .trying true ∈ o.callers) ∧
    ∀ ops o', (∀ op ∈ ops, op.OfCaller) → (system params).run o ops = some o' →
      ops.length ≤ o.ahead ∧
      (o'.Resting → o'.tally isServed = o.tally isServed +
        min o.credit (o.tally isPending + o.tally isGone - o'.tally isGone)) := by
  refine ⟨unstranded_of_reachable h, ?_⟩
  intro ops o' hops hrun
  rcases run_of_callers hops hrun with ⟨hahead, hle, hcredit, hcallers⟩
  refine ⟨by omega, ?_⟩
  intro hrest
  rcases hrest.done (unstranded_of_reachable (System.reachable_run h hrun)) with hnone | hnone
  · omega
  · omega

/-- Two callers wait at the limit of one stream, and one grant lets both of them open: the first
wakes the second. -/
theorem no_opener_stranded_two :
    ∃ o, (system { Conn.smallServer with initialMaxStreamsBidi := 1 }).Reachable o ∧
      o.conn.openedBidi < o.conn.maxStreamsBidi ∧ .waiting ∈ o.callers ∧
      (o.token = true ∨ .trying true ∈ o.callers) ∧
      ∃ o', (system { Conn.smallServer with initialMaxStreamsBidi := 1 }).run o
          [.take 1, .attempt 1 Conn.fairWire, .take 0, .attempt 0 Conn.fairWire] = some o' ∧
        o'.callers = [.opened 2, .opened 1] ∧ 4 ≤ o.ahead := by
  have hrun : ∃ o, (system { Conn.smallServer with initialMaxStreamsBidi := 1 }).Reachable o ∧
      o.conn.openedBidi < o.conn.maxStreamsBidi ∧ .waiting ∈ o.callers ∧
      ∃ o' ∈ (system { Conn.smallServer with initialMaxStreamsBidi := 1 }).run o
          [.take 1, .attempt 1 Conn.fairWire, .take 0, .attempt 0 Conn.fairWire],
        o'.callers = [.opened 2, .opened 1] := by
    apply System.exists_reachable
      [.openStream Conn.fairWire, .call, .call, .attempt 0 Conn.fairWire,
       .attempt 1 Conn.fairWire, .onMaxStreams false 3]
    decide +kernel
  rcases hrun with ⟨o, ho, hcredit, hwaiting, o', ho', hopened⟩
  rcases no_opener_stranded ho with ⟨hsafe, hlive⟩
  have hops := (hlive _ o' (by simp [Op.OfCaller]) ho').1
  exact ⟨o, ho, hcredit, hwaiting, hsafe hcredit hwaiting, o', ho', hopened, hops⟩

end Openers

end Quic
