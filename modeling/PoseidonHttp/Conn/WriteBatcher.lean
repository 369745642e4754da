import Mathlib.Tactic.Common
import PoseidonHttp.Lib.Transition

/-!
# Group commit

Writers share one buffered writer under `wmu`. With `GroupCommit` on, a writer whose
frame is buffered while another writer is queued for `wmu` does not flush: it parks in
`commit` and leaves the flush to the queued one.

A parked writer is released by a broadcast only. So whoever was counted in `waiters`
when it parked owes one: it has to flush, or to wake, before it lets go of `wmu`,
unless yet another writer is queued that inherits the debt. `Holder.owes` says which
holders are in that position, and the invariant is that without such a holder every
parked writer has a queued writer to rely on.

The bytes are counted: `accepted` by the buffered writer, `sent` once a flush of them
has succeeded. What a writer buffered lies below the count at its `commit`.
-/

namespace Conn.WriteBatcher

open Transition

/-! ## The buffered writer -/

/-- `bufio.Writer`, by the number of bytes it took and the number it got rid of. Its
error is sticky. -/
structure Buf where
  accepted : ℕ
  sent : ℕ
  failed : Bool
  sent_le : sent ≤ accepted
  deriving DecidableEq

theorem Buf.sent_le_empty : 0 ≤ 0 := Nat.le_refl 0

@[simps]
def Buf.empty : Buf := ⟨0, 0, false, sent_le_empty⟩

/-- `Buffered`. -/
def Buf.buffered (b : Buf) : ℕ := b.accepted - b.sent

/-- A write of `n` bytes that succeeds; as the buffer fills up, it may have sent bytes
up to `spill`. -/
@[simps]
def Buf.write (b : Buf) (n spill : ℕ) : Buf where
  accepted := b.accepted + n
  sent := max b.sent (min spill (b.accepted + n))
  failed := b.failed
  sent_le := by
    have := b.sent_le
    omega

/-- A write that fails, in the frame writer before any byte or in the transport. -/
@[simps]
def Buf.writeError (b : Buf) (transport : Bool) : Buf :=
  { b with failed := b.failed || transport }

/-- `Flush`; `ok` is what the transport says. -/
def Buf.flush (b : Buf) (ok : Bool) : Buf × Bool :=
  if b.failed then (b, false)
  else if b.buffered = 0 ∨ ok then ({ b with sent := b.accepted, sent_le := Nat.le_refl _ }, true)
  else ({ b with failed := true }, false)

/-- The buffered writer takes bytes and gets rid of some. -/
structure Buf.Grows (b b' : Buf) : Prop where
  accepted : b.accepted ≤ b'.accepted
  sent : b.sent ≤ b'.sent

theorem Buf.Grows.refl (b : Buf) : b.Grows b :=
  ⟨Nat.le_refl _, Nat.le_refl _⟩

theorem Buf.grows_write (b : Buf) (n spill : ℕ) : b.Grows (b.write n spill) :=
  ⟨Nat.le_add_right _ _, Nat.le_max_left _ _⟩

theorem Buf.grows_writeError (b : Buf) (transport : Bool) : b.Grows (b.writeError transport) :=
  ⟨Nat.le_refl _, Nat.le_refl _⟩

theorem Buf.grows_flush (b : Buf) (ok : Bool) : b.Grows (b.flush ok).1 := by
  unfold Buf.flush
  split_ifs
  · exact .refl b
  · exact ⟨Nat.le_refl _, b.sent_le⟩
  · exact ⟨Nat.le_refl _, Nat.le_refl _⟩

variable {b : Buf}

/-- A flush that returns nil has sent everything. -/
theorem Buf.sent_flush {ok : Bool} (h : (b.flush ok).2 = true) :
    (b.flush ok).1.sent = b.accepted := by
  unfold Buf.flush at h ⊢
  split_ifs at h ⊢
  rfl

/-! ## Writers -/

/-- The writers that announce themselves by `enter`. -/
inductive Writer where
  /-- `writeHeadersWithPriority`. -/
  | headers
  /-- `writeHeadersAndDataVec`, with a body. -/
  | fused
  /-- `SendBatch`. -/
  | batch
  deriving DecidableEq

/-- A writer in `cond.Wait`: the flush it waits for, and the bytes it wants out. -/
structure Deferral where
  target : ℕ
  mine : ℕ
  deriving DecidableEq

/-- Who holds `wmu`, and how far it is. -/
inductive Holder where
  /-- Past `Lock` and `leave`. -/
  | entered (w : Writer)
  /-- The fused writer past its HEADERS. -/
  | fusedBody
  /-- The batch past its check of `closed`. -/
  | batchEntries
  /-- In `commitFrame`. -/
  | committing
  /-- A writer that locks without `enter`: a control frame, `writeDataVec`, GOAWAY, `Close`. -/
  | plain
  /-- Back from `cond.Wait`. -/
  | resumed (d : Deferral)
  deriving DecidableEq

/-- The holder was counted in `waiters`. -/
def Holder.owes : Holder → Bool
  | .plain | .resumed _ => false
  | _ => true

/-- The exits of an announced writer that neither flush nor wake. -/
inductive Exit where
  /-- `effective <= 0`, and on to the slow path. -/
  | noFrame
  /-- `tryAcquireSendCreditsAll` fails. -/
  | creditError
  /-- It finds too little credit, and on to the slow path. -/
  | noCredit
  /-- The handle is stale once the HEADERS are written. -/
  | staleStream
  /-- `emitDataV` fails. -/
  | emitError (transport : Bool)
  /-- `SendBatch` finds the connection closed. -/
  | closed
  deriving DecidableEq

structure State where
  /-- `Conn.closed`. -/
  closed : Bool := false
  wmu : Option Holder := none
  wb : Buf := .empty
  /-- Between `enter` and `Lock`. -/
  queued : List Writer := []
  waiters : ℕ := 0
  seq : ℕ := 0
  /-- `err != nil`. -/
  err : Bool := false
  deferring : ℕ := 0
  /-- In `cond.Wait`, not woken. -/
  parked : List Deferral := []
  /-- In `cond.Wait`, woken, and not yet back under `wmu`. -/
  woken : List Deferral := []
  /-- The calls of `commit` that have returned: the caller's bytes, and whether the
  error was nil. -/
  returns : List (ℕ × Bool) := []
  deriving DecidableEq

inductive Op where
  | enter (w : Writer)
  | lock (w : Writer)
  /-- `writeHeaderBlock`, and its failure. -/
  | headerBlock (n spill : ℕ)
  | headerError (transport : Bool)
  /-- `emitDataV` of the fused writer. -/
  | dataFrame (n spill : ℕ)
  | batchOpen
  /-- The frames of one `sendBatchEntry`, and its failure. -/
  | batchEntry (n spill : ℕ)
  | batchError (transport : Bool)
  | exit (e : Exit)
  | commit (ok : Bool)
  | resume (d : Deferral)
  | finish (ok : Bool)
  | flushNow (ok : Bool)
  | lockPlain
  | write (n spill : ℕ)
  | writeError (transport : Bool)
  | flushWrite (ok : Bool)
  | wakeAll
  | unlock
  | setClosed

namespace State

variable (s : State)

@[simps]
def unlock : State := { s with wmu := none }

/-- `cond.Broadcast`. -/
@[simps]
def broadcast : State := { s with parked := [], woken := s.parked ++ s.woken }

def wakeDeferredLocked : State := if 0 < s.deferring then s.broadcast else s

/-- `flushNowLocked` with the batcher enabled. -/
def flushNowLocked (ok : Bool) : State :=
  { s with
    wb := (s.wb.flush ok).1
    seq := s.seq + 1
    err := s.err || !(s.wb.flush ok).2 }.wakeDeferredLocked

/-- `commit` returns the sticky error, and its caller unlocks. -/
@[simps]
def ret (mine : ℕ) : State :=
  { s with returns := (mine, !s.err) :: s.returns, wmu := none }

/-- `commit` up to `cond.Wait`, which releases `wmu`. -/
@[simps]
def park : State :=
  { s with
    deferring := s.deferring + 1
    parked := ⟨s.seq + 1, s.wb.accepted⟩ :: s.parked
    wmu := none }

def commit (flushBytes : ℕ) (s : State) (ok : Bool) : State :=
  if 0 < s.waiters ∧ s.wb.buffered < flushBytes then s.park
  else (s.flushNowLocked ok).ret s.wb.accepted

/-- The rest of `commit` after `cond.Wait`. -/
def finish (d : Deferral) (ok : Bool) : State :=
  if d.target ≤ s.seq then s.ret d.mine else (s.flushNowLocked ok).ret d.mine

/-- Where each exit stands. -/
def exit? : Exit → Bool
  | .noFrame | .creditError | .noCredit => s.wmu = some (.entered .fused)
  | .staleStream | .emitError _ => s.wmu = some .fusedBody
  | .closed => s.wmu = some (.entered .batch) ∧ s.closed

def exit : Exit → State
  | .emitError transport => { s with wb := s.wb.writeError transport }.unlock
  | _ => s.unlock

def step (flushBytes : ℕ) (s : State) : Op → Option State
  | .enter w => some { s with queued := w :: s.queued, waiters := s.waiters + 1 }
  | .lock w =>
    -- `leave` is taken together with `Lock`: nobody reads `waiters` without `wmu`
    if s.wmu = none ∧ w ∈ s.queued then
      some { s with
        queued := s.queued.erase w
        waiters := s.waiters - 1
        wmu := some (.entered w) }
    else none
  | .headerBlock n spill =>
    if s.wb.failed then none
    else if s.wmu = some (.entered .headers) then
      some { s with wb := s.wb.write n spill, wmu := some .committing }
    else if s.wmu = some (.entered .fused) then
      some { s with wb := s.wb.write n spill, wmu := some .fusedBody }
    else none
  | .headerError transport =>
    if s.wmu = some (.entered .headers) ∨ s.wmu = some (.entered .fused) then
      some { s with wb := s.wb.writeError transport }.wakeDeferredLocked.unlock
    else none
  | .dataFrame n spill =>
    if s.wmu = some .fusedBody ∧ s.wb.failed = false then some { s with wb := s.wb.write n spill }
    else none
  | .batchOpen =>
    if s.wmu = some (.entered .batch) ∧ s.closed = false then
      some { s with wmu := some .batchEntries }
    else none
  | .batchEntry n spill =>
    if s.wmu = some .batchEntries ∧ s.wb.failed = false then
      some { s with wb := s.wb.write n spill }
    else none
  | .batchError transport =>
    if s.wmu = some .batchEntries then some { s with wb := s.wb.writeError transport } else none
  | .exit e => if s.exit? e then some (s.exit e) else none
  | .commit ok =>
    if s.wmu = some .committing ∨ s.wmu = some .fusedBody then some (s.commit flushBytes ok)
    else none
  | .resume d =>
    if s.wmu = none ∧ d ∈ s.woken then
      some { s with
        woken := s.woken.erase d
        deferring := s.deferring - 1
        wmu := some (.resumed d) }
    else none
  | .finish ok =>
    match s.wmu with
    | some (.resumed d) => some (s.finish d ok)
    | _ => none
  | .flushNow ok =>
    if s.wmu = some .batchEntries ∨ s.wmu = some .plain then some (s.flushNowLocked ok).unlock
    else none
  | .lockPlain => if s.wmu = none then some { s with wmu := some .plain } else none
  | .write n spill =>
    if s.wmu = some .plain ∧ s.wb.failed = false then some { s with wb := s.wb.write n spill }
    else none
  | .writeError transport =>
    if s.wmu = some .plain then some { s with wb := s.wb.writeError transport }.unlock else none
  | .flushWrite ok =>
    if s.wmu = some .plain then some { s with wb := (s.wb.flush ok).1 } else none
  | .wakeAll => if s.wmu = some .plain then some s.broadcast else none
  | .unlock => if s.wmu = some .plain then some s.unlock else none
  | .setClosed => some { s with closed := true }

end State

/-- The writers of one connection, under a convoy threshold. -/
def system (flushBytes : ℕ) : System State Op where
  init := {}
  step := State.step flushBytes

namespace State

/-! ## What the batcher promises -/

/-- With `wmu` free and no writer queued, no writer is parked: whoever still counts as
deferring has been woken. -/
def Unstranded (s : State) : Prop :=
  s.wmu = none → s.waiters = 0 → s.parked = [] ∧ s.deferring = s.woken.length

/-- A `commit` that returned nil has its caller's bytes sent. -/
def Delivered (s : State) : Prop :=
  ∀ r ∈ s.returns, r.2 = true → r.1 ≤ s.wb.sent

def Sound (s : State) : Prop := s.Unstranded ∧ s.Delivered

instance (s : State) : Decidable s.Sound := by
  unfold Sound Unstranded Delivered
  infer_instance

/-- An exit that neither flushes nor wakes is taken only when no writer is parked, or
when another one is queued. -/
def Attended (s : State) : Op → Prop
  | .exit _ => s.parked = [] ∨ 0 < s.waiters
  | _ => True

instance (s : State) (op : Op) : Decidable (s.Attended op) := by
  cases op <;> dsimp only [Attended] <;> infer_instance

variable {s s' : State} {ok : Bool}

/-! ## What a step does -/

/-- The holder of `wmu` was counted in `waiters` when others parked. -/
def Owed (s : State) : Prop := s.wmu.any Holder.owes = true

theorem not_owed_of_free (h : s.wmu = none) : ¬ s.Owed := by
  simp [Owed, h]

theorem not_owed_of_plain (h : s.wmu = some .plain) : ¬ s.Owed := by
  simp [Owed, h, Holder.owes]

/-- A step that leaves the convoy alone, lets go of no debt, and at most buffers and
sends bytes. -/
structure Quiet (s s' : State) : Prop where
  waiters : s.waiters ≤ s'.waiters
  deferring : s'.deferring = s.deferring
  parked : s'.parked = s.parked
  woken : s'.woken = s.woken
  owed : s.Owed → s'.Owed
  wb : s.wb.Grows s'.wb
  seq : s'.seq = s.seq
  err : s'.err = s.err
  returns : s'.returns = s.returns
  resumed : ∀ d, s'.wmu = some (.resumed d) → s.wmu = some (.resumed d)

/-- What a step can do. -/
inductive Does (flushBytes : ℕ) (s : State) : Op → State → Prop
  | quiet {op : Op} {s' : State} (h : s.Quiet s') : Does flushBytes s op s'
  | lock {w : Writer} (hfree : s.wmu = none) :
      Does flushBytes s (.lock w)
        { s with queued := s.queued.erase w, waiters := s.waiters - 1, wmu := some (.entered w) }
  | headerError {transport : Bool} :
      Does flushBytes s (.headerError transport)
        { s with wb := s.wb.writeError transport }.wakeDeferredLocked.unlock
  | exit {e : Exit} : Does flushBytes s (.exit e) (s.exit e)
  | commit {ok : Bool} : Does flushBytes s (.commit ok) (s.commit flushBytes ok)
  | resume {d : Deferral} (hfree : s.wmu = none) (hd : d ∈ s.woken) :
      Does flushBytes s (.resume d)
        { s with
          woken := s.woken.erase d
          deferring := s.deferring - 1
          wmu := some (.resumed d) }
  | finish {d : Deferral} {ok : Bool} (hwmu : s.wmu = some (.resumed d)) :
      Does flushBytes s (.finish ok) (s.finish d ok)
  | flushNow {ok : Bool} : Does flushBytes s (.flushNow ok) (s.flushNowLocked ok).unlock
  | wakeAll (hwmu : s.wmu = some .plain) : Does flushBytes s .wakeAll s.broadcast

/-- A holder buffers or sends bytes, and keeps `wmu` or passes on to its next phase. -/
theorem Quiet.of_holder {h h' : Holder} (hwmu : s.wmu = some h) (hb : s.wb.Grows b)
    (howes : h.owes = h'.owes) (hres : ∀ d, h' = .resumed d → h = .resumed d) :
    s.Quiet { s with wb := b, wmu := some h' } := by
  refine ⟨Nat.le_refl _, rfl, rfl, rfl, ?_, hb, rfl, rfl, rfl, ?_⟩
  · simp [Owed, hwmu, howes]
  · intro d hd
    rw [hwmu, hres d (Option.some.inj hd)]

/-- A holder without a debt lets go of `wmu`. -/
theorem Quiet.of_plain (hwmu : s.wmu = some .plain) (hb : s.wb.Grows b) :
    s.Quiet { s with wb := b, wmu := none } := by
  refine ⟨Nat.le_refl _, rfl, rfl, rfl, ?_, hb, rfl, rfl, rfl, ?_⟩
  · intro howed
    exact absurd howed (not_owed_of_plain hwmu)
  · simp

/-- A holder that keeps `wmu` and buffers or sends bytes. -/
theorem Quiet.of_wb (hb : s.wb.Grows b) : s.Quiet { s with wb := b } :=
  ⟨Nat.le_refl _, rfl, rfl, rfl, id, hb, rfl, rfl, rfl, fun _ => id⟩

variable {flushBytes : ℕ} {op : Op}

theorem does_step (hstep : s.step flushBytes op = some s') : s.Does flushBytes op s' := by
  cases op <;> simp only [step, Option.ite_none_right_eq_some, Option.some.injEq] at hstep
  case enter w =>
    subst hstep
    exact .quiet ⟨Nat.le_succ _, rfl, rfl, rfl, id, .refl _, rfl, rfl, rfl, fun _ => id⟩
  case lock w =>
    rcases hstep with ⟨⟨hfree, _⟩, rfl⟩
    exact .lock hfree
  case headerBlock n spill =>
    split_ifs at hstep with _ hheaders hfused <;> cases hstep
    · exact .quiet (.of_holder hheaders (s.wb.grows_write n spill) rfl (by simp))
    · exact .quiet (.of_holder hfused (s.wb.grows_write n spill) rfl (by simp))
  case headerError transport =>
    rcases hstep with ⟨_, rfl⟩
    exact .headerError
  case batchOpen =>
    rcases hstep with ⟨⟨hbatch, _⟩, rfl⟩
    exact .quiet (.of_holder hbatch (.refl s.wb) rfl (by simp))
  case dataFrame n spill | batchEntry n spill | write n spill =>
    rcases hstep with ⟨_, rfl⟩
    exact .quiet (.of_wb (s.wb.grows_write n spill))
  case batchError transport =>
    rcases hstep with ⟨_, rfl⟩
    exact .quiet (.of_wb (s.wb.grows_writeError transport))
  case flushWrite ok =>
    rcases hstep with ⟨_, rfl⟩
    exact .quiet (.of_wb (s.wb.grows_flush ok))
  case exit e =>
    rcases hstep with ⟨_, rfl⟩
    exact .exit
  case commit =>
    rcases hstep with ⟨_, rfl⟩
    exact .commit
  case resume d =>
    rcases hstep with ⟨⟨hfree, hd⟩, rfl⟩
    exact .resume hfree hd
  case finish =>
    split at hstep
    case h_1 d hwmu =>
      cases hstep
      exact .finish hwmu
    case h_2 => cases hstep
  case flushNow =>
    rcases hstep with ⟨_, rfl⟩
    exact .flushNow
  case lockPlain =>
    rcases hstep with ⟨hfree, rfl⟩
    refine .quiet ⟨Nat.le_refl _, rfl, rfl, rfl, ?_, .refl _, rfl, rfl, rfl, by simp⟩
    intro howed
    exact absurd howed (not_owed_of_free hfree)
  case writeError transport =>
    rcases hstep with ⟨hplain, rfl⟩
    exact .quiet (.of_plain hplain (s.wb.grows_writeError transport))
  case wakeAll =>
    rcases hstep with ⟨hplain, rfl⟩
    exact .wakeAll hplain
  case unlock =>
    rcases hstep with ⟨hplain, rfl⟩
    exact .quiet (.of_plain hplain (.refl s.wb))
  case setClosed =>
    subst hstep
    exact .quiet ⟨Nat.le_refl _, rfl, rfl, rfl, id, .refl _, rfl, rfl, rfl, fun _ => id⟩

/-! ## The debt of a queued writer -/

/-- Every parked writer has somebody to rely on: the holder, or a queued writer. -/
structure Relied (s : State) : Prop where
  deferring : s.deferring = s.parked.length + s.woken.length
  convoy : ¬ s.Owed → s.parked ≠ [] → 0 < s.waiters

theorem Relied.unstranded (h : s.Relied) : s.Unstranded := by
  intro hfree hwaiters
  have hparked : s.parked = [] := by
    by_contra hp
    exact absurd (h.convoy (not_owed_of_free hfree) hp) (by simp [hwaiters])
  refine ⟨hparked, ?_⟩
  rw [h.deferring, hparked, List.length_nil, Nat.zero_add]

theorem Relied.quiet (h : s.Relied) (hq : s.Quiet s') : s'.Relied := by
  constructor
  · rw [hq.deferring, hq.parked, hq.woken, h.deferring]
  · intro hfree hparked
    rw [hq.parked] at hparked
    have hqueued := h.convoy (fun ho => hfree (hq.owed ho)) hparked
    exact Nat.lt_of_lt_of_le hqueued hq.waiters

/-- With nobody parked there is nothing to rely on. -/
theorem Relied.of_parked_nil (h : s.parked = [] ∧ s.deferring = s.woken.length) : s.Relied := by
  obtain ⟨hp, hd⟩ := h
  constructor
  · rw [hd, hp, List.length_nil, Nat.zero_add]
  · intro _ hparked
    exact absurd hp hparked

/-- `wakeDeferredLocked` looks at `deferring` first, which is not 0 while anyone is
parked. -/
theorem woken_wakeDeferredLocked (h : s.deferring = s.parked.length + s.woken.length) :
    s.wakeDeferredLocked.parked = [] ∧
      s.wakeDeferredLocked.deferring = s.wakeDeferredLocked.woken.length := by
  unfold wakeDeferredLocked
  split_ifs
  · exact ⟨rfl, by simpa using h⟩
  · exact ⟨List.length_eq_zero_iff.mp (by omega), by omega⟩

theorem Relied.ret_flushNowLocked (h : s.Relied) (mine : ℕ) :
    ((s.flushNowLocked ok).ret mine).Relied :=
  .of_parked_nil (woken_wakeDeferredLocked h.deferring)

theorem Relied.commit (h : s.Relied) (flushBytes : ℕ) : (s.commit flushBytes ok).Relied := by
  unfold State.commit
  split_ifs with hdefer
  · -- the writer parks because it saw another one queued
    constructor
    · simp [h.deferring, Nat.add_right_comm]
    · intro _ _
      exact hdefer.1
  · exact h.ret_flushNowLocked _

theorem Relied.finish (h : s.Relied) {d : Deferral} (hwmu : s.wmu = some (.resumed d)) :
    (s.finish d ok).Relied := by
  unfold State.finish
  split_ifs
  · -- it was woken, so it owes nothing itself
    refine ⟨h.deferring, ?_⟩
    intro _ hparked
    exact h.convoy (by simp [Owed, hwmu, Holder.owes]) hparked
  · exact h.ret_flushNowLocked _

theorem Relied.exit (h : s.Relied) (e : Exit) (hc : s.parked = [] ∨ 0 < s.waiters) :
    (s.exit e).Relied := by
  have hunlocked : s.unlock.Relied := by
    refine ⟨h.deferring, ?_⟩
    intro _ hparked
    rcases hc with hnone | hqueued
    · exact absurd hnone hparked
    · exact hqueued
  cases e
  case emitError => exact ⟨hunlocked.deferring, hunlocked.convoy⟩
  all_goals exact hunlocked

/-- One step of any writer, taken as `Attended` asks. -/
theorem Relied.step (h : s.Relied) (hc : s.Attended op)
    (hdoes : s.Does flushBytes op s') : s'.Relied := by
  cases hdoes with
  | quiet hq => exact h.quiet hq
  | lock =>
    -- the holder takes over what `waiters` stood for
    refine ⟨h.deferring, ?_⟩
    intro hfree
    exact absurd rfl hfree
  | headerError => exact .of_parked_nil (woken_wakeDeferredLocked h.deferring)
  | exit => exact h.exit _ hc
  | commit => exact h.commit flushBytes
  | resume hfree hd =>
    constructor
    · have hpos := List.length_pos_of_mem hd
      simp only [h.deferring, List.length_erase_of_mem hd]
      omega
    · intro _ hparked
      exact h.convoy (not_owed_of_free hfree) hparked
  | finish hwmu => exact h.finish hwmu
  | flushNow => exact .of_parked_nil (woken_wakeDeferredLocked h.deferring)
  | wakeAll => exact .of_parked_nil ⟨rfl, by simpa using h.deferring⟩

/-! ## The bytes of a deferred writer -/

/-- A writer inside `commit`, in `cond.Wait` or back from it. -/
def Deferred (s : State) (d : Deferral) : Prop :=
  d ∈ s.parked ∨ d ∈ s.woken ∨ s.wmu = some (.resumed d)

/-- Its bytes are buffered, and if the flush it waits for has happened and none has
failed, they are sent. -/
structure Served (s : State) (d : Deferral) : Prop where
  accepted : d.mine ≤ s.wb.accepted
  sent : d.target ≤ s.seq → s.err = false → d.mine ≤ s.wb.sent

structure Ledger (s : State) : Prop where
  served : ∀ d, s.Deferred d → s.Served d
  delivered : s.Delivered

/-- Bytes are buffered and sent, writers move within `commit`, but none returns. -/
theorem Ledger.frame (h : s.Ledger) (hwb : s.wb.Grows s'.wb) (hseq : s'.seq = s.seq)
    (herr : s'.err = s.err) (hret : s'.returns = s.returns)
    (hdef : ∀ d, s'.Deferred d → s.Deferred d) : s'.Ledger := by
  constructor
  · intro d hd
    have hserved := h.served d (hdef d hd)
    constructor
    · exact Nat.le_trans hserved.accepted hwb.accepted
    · intro htarget hok
      rw [hseq] at htarget
      rw [herr] at hok
      exact Nat.le_trans (hserved.sent htarget hok) hwb.sent
  · intro r hr hnil
    rw [hret] at hr
    exact Nat.le_trans (h.delivered r hr hnil) hwb.sent

theorem Ledger.quiet (h : s.Ledger) (hq : s.Quiet s') : s'.Ledger := by
  refine h.frame hq.wb hq.seq hq.err hq.returns ?_
  intro d hd
  rcases hd with hparked | hwoken | hresumed
  · exact .inl (hq.parked ▸ hparked)
  · exact .inr (.inl (hq.woken ▸ hwoken))
  · exact .inr (.inr (hq.resumed d hresumed))

theorem Ledger.broadcast (h : s.Ledger) : s.broadcast.Ledger := by
  refine h.frame (.refl _) rfl rfl rfl ?_
  simp [Deferred, or_assoc]

theorem Ledger.wakeDeferredLocked (h : s.Ledger) : s.wakeDeferredLocked.Ledger := by
  unfold State.wakeDeferredLocked
  split_ifs
  · exact h.broadcast
  · exact h

theorem Ledger.unlock (h : s.Ledger) : s.unlock.Ledger := by
  refine h.frame (.refl _) rfl rfl rfl ?_
  intro d hd
  rcases hd with hparked | hwoken | hresumed
  · exact .inl hparked
  · exact .inr (.inl hwoken)
  · cases hresumed

theorem wb_flushNowLocked : (s.flushNowLocked ok).wb = (s.wb.flush ok).1 := by
  unfold flushNowLocked wakeDeferredLocked
  split_ifs <;> rfl

theorem err_flushNowLocked : (s.flushNowLocked ok).err = (s.err || !(s.wb.flush ok).2) := by
  unfold flushNowLocked wakeDeferredLocked
  split_ifs <;> rfl

/-- After a flush without an error, all that was buffered is sent. -/
theorem sent_flushNowLocked (h : (s.flushNowLocked ok).err = false) :
    (s.flushNowLocked ok).wb.sent = s.wb.accepted := by
  rw [err_flushNowLocked] at h
  rw [wb_flushNowLocked]
  exact Buf.sent_flush (by simp_all)

section Flushes

variable (h : s.Ledger)

include h

theorem Ledger.flushNowLocked : (s.flushNowLocked ok).Ledger := by
  refine Ledger.wakeDeferredLocked ⟨?_, ?_⟩
  · intro d hd
    have hserved := h.served d hd
    have hgrows := s.wb.grows_flush ok
    refine ⟨Nat.le_trans hserved.accepted hgrows.accepted, ?_⟩
    -- this flush carries everything that was buffered before it
    intro _ herr
    have hok : (s.wb.flush ok).2 = true := by simp_all
    exact Nat.le_trans hserved.accepted (Nat.le_of_eq (Buf.sent_flush hok).symm)
  · intro r hr hnil
    exact Nat.le_trans (h.delivered r hr hnil) (s.wb.grows_flush ok).sent

theorem Ledger.ret {mine : ℕ} (hmine : s.err = false → mine ≤ s.wb.sent) : (s.ret mine).Ledger := by
  constructor
  · intro d hd
    have hserved := h.unlock.served d hd
    exact ⟨hserved.accepted, hserved.sent⟩
  · exact List.forall_mem_cons.mpr
      ⟨fun hnil => hmine (by simpa using hnil), h.delivered⟩

theorem Ledger.ret_flushNowLocked {mine : ℕ} (hmine : mine ≤ s.wb.accepted) :
    ((s.flushNowLocked ok).ret mine).Ledger :=
  h.flushNowLocked.ret fun herr => Nat.le_trans hmine (Nat.le_of_eq (sent_flushNowLocked herr).symm)

theorem Ledger.commit (flushBytes : ℕ) : (s.commit flushBytes ok).Ledger := by
  unfold State.commit
  split_ifs
  · constructor
    · intro d hd
      rcases hd with hparked | hwoken | hresumed
      · rcases List.mem_cons.mp hparked with rfl | hold
        · -- the flush it waits for is still to come
          refine ⟨Nat.le_refl _, ?_⟩
          intro htarget
          exact absurd htarget (Nat.not_succ_le_self _)
        · have hserved := h.served d (.inl hold)
          exact ⟨hserved.accepted, hserved.sent⟩
      · have hserved := h.served d (.inr (.inl hwoken))
        exact ⟨hserved.accepted, hserved.sent⟩
      · cases hresumed
    · exact h.delivered
  · exact h.ret_flushNowLocked (Nat.le_refl _)

theorem Ledger.finish {d : Deferral} (hwmu : s.wmu = some (.resumed d)) :
    (s.finish d ok).Ledger := by
  have hserved := h.served d (.inr (.inr hwmu))
  unfold State.finish
  split_ifs with htarget
  · exact h.ret (hserved.sent htarget)
  · exact h.ret_flushNowLocked hserved.accepted

theorem Ledger.exit (e : Exit) : (s.exit e).Ledger := by
  cases e
  case emitError transport =>
    exact Ledger.unlock (h.quiet (.of_wb (s.wb.grows_writeError transport)))
  all_goals exact h.unlock

theorem Ledger.step (hdoes : s.Does flushBytes op s') : s'.Ledger := by
  cases hdoes with
  | quiet hq => exact h.quiet hq
  | lock hfree =>
    refine h.frame (.refl _) rfl rfl rfl ?_
    simp [Deferred, hfree]
  | @headerError transport =>
    have hwrite := h.quiet (.of_wb (s.wb.grows_writeError transport))
    exact hwrite.wakeDeferredLocked.unlock
  | exit => exact h.exit _
  | commit => exact h.commit flushBytes
  | resume hfree hd =>
    -- the writer that is back was among the woken
    refine h.frame (.refl _) rfl rfl rfl ?_
    intro d' hd'
    rcases hd' with hparked | hwoken | hresumed
    · exact .inl hparked
    · exact .inr (.inl (List.mem_of_mem_erase hwoken))
    · cases hresumed
      exact .inr (.inl hd)
  | finish hwmu => exact h.finish hwmu
  | flushNow => exact h.flushNowLocked.unlock
  | wakeAll => exact h.broadcast

end Flushes

/-! ## Every run -/

structure Inv (s : State) : Prop where
  relied : s.Relied
  ledger : s.Ledger

theorem inv_init (flushBytes : ℕ) : (system flushBytes).init.Inv := by
  refine ⟨.of_parked_nil ⟨rfl, rfl⟩, ?_, ?_⟩
  · intro d hd
    simp [Deferred, system] at hd
  · intro r hr
    simp [system] at hr

theorem Inv.step (h : s.Inv) (hc : s.Attended op)
    (hstep : s.step flushBytes op = some s') : s'.Inv :=
  ⟨h.relied.step hc (does_step hstep), h.ledger.step (does_step hstep)⟩

end State

/-- No writer is stranded in a run that takes the silent exits only when attended, and
in every such run a nil `commit` means that the bytes are sent. -/
theorem sound_of_attended {flushBytes : ℕ} {s : State}
    (h : (system flushBytes).ReachableBy State.Attended s) : s.Sound := by
  have hinv : s.Inv := by
    refine h.invariant (State.inv_init flushBytes) ?_
    intro s a s' hinv hc hstep
    exact hinv.step hc hstep
  exact ⟨hinv.relied.unstranded, hinv.ledger.delivered⟩

/-- Two request heads in one convoy, a control frame between them, and a third writer
that finds no credit when nobody waits. -/
def convoyRun : List Op :=
  [.enter .headers, .lock .headers, .headerBlock 100 0, .enter .headers, .commit true,
    .lockPlain, .write 13 0, .unlock,
    .lock .headers, .headerBlock 80 0, .commit true, .resume ⟨1, 100⟩, .finish true,
    .enter .fused, .lock .fused, .exit .noCredit]

/-- The convoy leaves in one flush. -/
theorem sound_of_attended_convoyRun :
    ∃ s, (system 8192).run (system 8192).init convoyRun = some s ∧
      s.returns = [(100, true), (193, true)] ∧ s.seq = 1 ∧ s.Sound := by
  have hmeets : (system 8192).RunMeets State.Attended (system 8192).init convoyRun := by
    decide +kernel
  have hrun : ∃ s, (system 8192).run (system 8192).init convoyRun = some s ∧
      s.returns = [(100, true), (193, true)] ∧ s.seq = 1 := by
    decide +kernel
  rcases hrun with ⟨s, hs, hreturns, hseq⟩
  exact ⟨s, hs, hreturns, hseq, sound_of_attended (System.reachableBy_run .init hmeets hs)⟩

/-- A fused writer that finds its stream closed. -/
def strandingRun : List Op :=
  [.enter .headers, .lock .headers, .headerBlock 100 0, .enter .fused, .commit true,
    .lock .fused, .exit .creditError]

/-- The writer that parked for it stays parked, with nobody queued and `wmu` free. -/
theorem creditError_strands :
    ∃ s, (system 8192).Reachable s ∧ s.wmu = none ∧ s.waiters = 0 ∧ s.queued = [] ∧
      s.parked = [⟨1, 100⟩] ∧ s.woken = [] ∧ s.deferring = 1 ∧ ¬ s.Sound := by
  apply System.exists_reachable strandingRun
  decide +kernel

end Conn.WriteBatcher
