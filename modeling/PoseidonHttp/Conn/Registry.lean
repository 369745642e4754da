import Mathlib.Algebra.Ring.Nat
import Mathlib.Data.List.AList
import PoseidonHttp.Lib.Slots
import PoseidonHttp.Lib.Transition

/-!
# The stream registry

Stream structs, the registry that maps ids to them, and the two slot counters. The
steps are the lock-protected sections of `conn.go` and `stream.go`: an operation that
runs in several of them leaves a task behind for the next, and any task may run at
any time.

Structs are pooled: `owned` says that a struct was handed out and not reset since,
and one that was never handed out is a fresh one. The event channel is left out, but
for the overflow that resets a stream.
-/

namespace Conn.Registry

open Transition

/-- `Stream`, the fields that its life cycle reads. -/
structure Stream where
  gen : ℕ := 1
  id : ℕ := 0
  localEnded : Bool := false
  remoteEnded : Bool := false
  closed : Bool := false
  inflightDone : Bool := false
  pushed : Bool := false
  appClosed : Bool := false
  connDone : Bool := false
  released : Bool := false
  recvActive : ℕ := 0
  recycleWanted : Bool := false
  owned : Bool := false
  deriving DecidableEq

/-- The fields that tie a struct to the registry and the pool. -/
def Stream.life (t : Stream) : ℕ × Bool × Bool × Bool × Bool × Bool :=
  (t.id, t.owned, t.connDone, t.appClosed, t.released, t.recycleWanted)

/-- The fields that say which slot it holds. -/
def Stream.slot (t : Stream) : Bool × Bool × Bool := (t.owned, t.pushed, t.inflightDone)

/-- What is left to run of an operation. -/
inductive Task where
  /-- `NewStream` past its checks, under a limit. -/
  | newStream (limit : ℕ)
  /-- `SendHeaders` and `SendData` past their gate. -/
  | headers (k : ℕ) (endStream : Bool)
  | data (k : ℕ) (endStream : Bool)
  | endLocal (k : ℕ)
  | markStreamDone (id : ℕ)
  /-- `writeRSTStream`, and the best-effort form before and after its write. -/
  | writeRSTStream (k : ℕ)
  | bestEffort (k : ℕ)
  | bestEffortSent (k : ℕ)
  | writeRSTStreamID (id : ℕ)
  | releaseInflight (id : ℕ)
  | releaseUnassigned (k : ℕ)
  | recycle (k : ℕ)
  /-- A reader inside `recv`. -/
  | recv (k : ℕ)
  /-- The reader has looked a frame's stream up. -/
  | deliver (k id : ℕ) (endStream overflow : Bool)
  | reset (k id : ℕ)
  | streamError (k id : ℕ)
  | reservePushed (id limit : ℕ)
  /-- `onGoAwayReceived` before its snapshot, and one victim of it. -/
  | sweep (last : ℕ)
  | victim (k id : ℕ)
  deriving DecidableEq

structure State where
  struct : ℕ → Stream
  /-- Structs from here on were never handed out. -/
  size : ℕ
  streams : AList fun _ : ℕ => ℕ
  nextID : ℕ
  inflight : ℕ
  pushInflight : ℕ
  lastPromisedID : ℕ
  goAwayReceived : Bool
  goAwayLastStreamID : ℕ
  /-- The last-stream-ids received. -/
  goAways : List ℕ
  tasks : List Task

/-- What a caller or the peer starts, and a task taking its next section: `ok` is
whether its write succeeds (for the best-effort form, whether the connection is open),
`j` the struct the pool hands out. -/
inductive Op where
  | newStream (limit : ℕ)
  | sendHeaders (k gen : ℕ) (endStream : Bool)
  | sendData (k gen : ℕ) (endStream : Bool)
  | recv (k gen : ℕ)
  | close (k gen : ℕ)
  | frame (id : ℕ) (endStream overflow : Bool)
  | rstStream (id : ℕ)
  | streamError (id : ℕ)
  | promise (id limit : ℕ)
  | goAway (last : ℕ)
  | run (t : Task) (ok : Bool) (j : ℕ)

namespace State

def init : State :=
  ⟨fun _ => {}, 0, ∅, 1, 0, 0, 0, false, 0, [], []⟩

variable (s : State)

@[simps]
def spawn (t : Task) : State := { s with tasks := t :: s.tasks }

/-- Change one struct. -/
@[simps]
def modify (k : ℕ) (f : Stream → Stream) : State :=
  { s with struct := Function.update s.struct k (f (s.struct k)) }

/-- `allocStream` on the struct the pool hands out. -/
def allocStream (k : ℕ) : State :=
  { s.modify k fun t => { t with owned := true, released := false } with size := max s.size (k + 1) }

def assignStreamIDLocked (k : ℕ) : State :=
  if (s.struct k).id ≠ 0 then s
  else
    { s.modify k fun t => { t with id := s.nextID } with
      streams := s.streams.insert s.nextID k
      nextID := (s.nextID + 2) % 2 ^ 32 }

/-- `releaseSlotLocked`. -/
def releaseSlot (pushed : Bool) : State :=
  if pushed then { s with pushInflight := s.pushInflight - 1 }
  else { s with inflight := s.inflight - 1 }

/-- Return the slot of a registered stream and take it out of the registry. -/
def evict (id k : ℕ) : State :=
  let s := s.releaseSlot (s.struct k).pushed
  { s.modify k fun t => { t with inflightDone := true } with streams := s.streams.erase id }

/-- The rendezvous with `Close`: the second of the two recycles. -/
def rendezvous (k : ℕ) : State :=
  if (s.struct k).closed then s
  else if (s.struct k).appClosed then s.spawn (.recycle k)
  else s.modify k fun t => { t with connDone := true }

def markStreamDone (id : ℕ) : State :=
  match s.streams.lookup id with
  | none => s
  | some k =>
    let t := s.struct k
    if t.localEnded ∧ t.remoteEnded ∧ t.inflightDone = false then (s.evict id k).rendezvous k
    else s

def releaseInflight (id : ℕ) : State :=
  match s.streams.lookup id with
  | none => s
  | some k => if (s.struct k).inflightDone then s else s.evict id k

def releaseUnassignedInflight (k : ℕ) : State :=
  if (s.struct k).inflightDone then s
  else { s.modify k fun t => { t with inflightDone := true } with inflight := s.inflight - 1 }

/-- `resetForPoolLocked`: the lifetime ends. -/
def resetForPool (k : ℕ) : State :=
  s.modify k fun t => { gen := t.gen + 1, released := t.released, recvActive := t.recvActive }

def recycleStream (k : ℕ) : State :=
  if 0 < (s.struct k).recvActive then s.modify k fun t => { t with recycleWanted := true }
  else s.resetForPool k

def recvLeave (k : ℕ) : State :=
  let s := s.modify k fun t => { t with recvActive := t.recvActive - 1 }
  if 0 < (s.struct k).recvActive ∨ (s.struct k).recycleWanted = false then s
  else s.resetForPool k

/-- `endWithReset`; a struct that carries another id is left alone. -/
def endWithReset (k id : ℕ) : State :=
  if (s.struct k).id = id then
    s.modify k fun t => { t with remoteEnded := true, localEnded := true, closed := true }
  else s

/-- The section of `close`, with what it leaves to do. -/
def close (k : ℕ) : State :=
  let t := s.struct k
  let s := s.modify k fun t => { t with released := true, appClosed := true }
  if t.closed then s
  else if t.localEnded ∧ t.remoteEnded then if t.connDone then s.spawn (.recycle k) else s
  else
    let s := s.modify k fun t => { t with closed := true }
    if t.connDone then s.spawn (.recycle k) else s.spawn (.writeRSTStream k)

def deliver (k id : ℕ) (endStream overflow : Bool) : State :=
  let t := s.struct k
  let s := s.modify k fun t =>
    { t with remoteEnded := t.remoteEnded || endStream, closed := t.closed || overflow }
  let s := if overflow ∧ t.closed = false then s.spawn (.bestEffort k) else s
  if endStream then s.spawn (.markStreamDone id) else s

def reservePushedStream (id k : ℕ) : State :=
  let s := s.allocStream k
  { s.modify k fun t => { t with id := id, pushed := true } with
    streams := s.streams.insert id k
    pushInflight := s.pushInflight + 1 }

/-- The snapshot of `onGoAwayReceived`. -/
def sweep (last : ℕ) : State :=
  { s with tasks := (s.streams.entries.filter fun e => last < e.1).map (fun e => .victim e.2 e.1)
      ++ s.tasks }

/-- The next section of a task. -/
def exec (ok : Bool) (j : ℕ) : Task → Option State
  | .newStream limit =>
    if limit ≤ s.inflight then some s
    else if (s.struct j).owned then none
    else some { s.allocStream j with inflight := s.inflight + 1 }
  | .headers k endStream =>
    let s := s.assignStreamIDLocked k
    some (if ok ∧ endStream then s.spawn (.endLocal k) else s)
  | .data k endStream => some (if ok ∧ endStream then s.spawn (.endLocal k) else s)
  | .endLocal k =>
    some ((s.modify k fun t => { t with localEnded := true }).spawn
      (.markStreamDone (s.struct k).id))
  | .markStreamDone id => some (s.markStreamDone id)
  | .writeRSTStream k =>
    some (if (s.struct k).id = 0 then s.spawn (.releaseUnassigned k)
      else s.spawn (.writeRSTStreamID (s.struct k).id))
  | .bestEffort k =>
    some (if (s.struct k).id = 0 then s.spawn (.releaseUnassigned k)
      else if ok then s.spawn (.bestEffortSent k) else s)
  | .bestEffortSent k => some (s.spawn (.releaseInflight (s.struct k).id))
  | .writeRSTStreamID id => some (if ok then s.releaseInflight id else s)
  | .releaseInflight id => some (s.releaseInflight id)
  | .releaseUnassigned k => some (s.releaseUnassignedInflight k)
  | .recycle k => some (s.recycleStream k)
  | .recv k => some (s.recvLeave k)
  | .deliver k id endStream overflow => some (s.deliver k id endStream overflow)
  | .reset k id | .victim k id =>
    some (if (s.struct k).id = id then (s.endWithReset k id).spawn (.markStreamDone id) else s)
  | .streamError k id => some ((s.endWithReset k id).spawn (.writeRSTStreamID id))
  | .reservePushed id limit =>
    if limit ≤ s.pushInflight then some s
    else if (s.struct j).owned then none
    else some (s.reservePushedStream id j)
  | .sweep last => some (s.sweep last)

/-- A handle is good for the lifetime it was minted for. -/
def Valid (k gen : ℕ) : Prop := (s.struct k).owned = true ∧ (s.struct k).gen = gen

instance (s : State) (k gen : ℕ) : Decidable (s.Valid k gen) := inferInstanceAs (Decidable (_ ∧ _))

/-- The gate of the send paths. -/
def CanSend (k : ℕ) : Prop :=
  (s.struct k).pushed = false ∧ (s.struct k).closed = false ∧ (s.struct k).localEnded = false

instance (s : State) (k : ℕ) : Decidable (s.CanSend k) := inferInstanceAs (Decidable (_ ∧ _))

def onGoAwayReceived (last : ℕ) : State :=
  let clamped :=
    if s.goAwayReceived ∧ s.goAwayLastStreamID < last then s.goAwayLastStreamID else last
  { s with goAwayLastStreamID := clamped, goAwayReceived := true, goAways := last :: s.goAways }.spawn
    (.sweep clamped)

def step : Op → Option State
  | .newStream limit => if s.goAwayReceived then none else some (s.spawn (.newStream limit))
  | .sendHeaders k gen endStream =>
    if s.Valid k gen ∧ s.CanSend k then some (s.spawn (.headers k endStream)) else none
  | .sendData k gen endStream =>
    if s.Valid k gen ∧ s.CanSend k then some (s.spawn (.data k endStream)) else none
  | .recv k gen =>
    if s.Valid k gen ∧ (s.struct k).released = false then
      some ((s.modify k fun t => { t with recvActive := t.recvActive + 1 }).spawn (.recv k))
    else none
  | .close k gen =>
    if s.Valid k gen ∧ (s.struct k).released = false then some (s.close k) else none
  | .frame id endStream overflow =>
    (s.streams.lookup id).map fun k => s.spawn (.deliver k id endStream overflow)
  | .rstStream id => (s.streams.lookup id).map fun k => s.spawn (.reset k id)
  | .streamError id =>
    match s.streams.lookup id with
    | none => some (s.spawn (.writeRSTStreamID id))
    | some k => some (s.spawn (.streamError k id))
  | .promise id limit =>
    if id ≠ 0 ∧ id % 2 = 0 ∧ s.lastPromisedID < id then
      some ({ s with lastPromisedID := id }.spawn (.reservePushed id limit))
    else none
  | .goAway last => some (s.onGoAwayReceived last)
  | .run t ok j => if t ∈ s.tasks then { s with tasks := s.tasks.erase t }.exec ok j t else none

end State

/-- The registry of a connection. -/
def system : System State Op := ⟨State.init, State.step⟩

/-! ## Structs and the registry -/

variable {m : AList fun _ : ℕ => ℕ}

theorem lookup_insert_iff {a b i k : ℕ} :
    (m.insert a b).lookup i = some k ↔ i = a ∧ b = k ∨ i ≠ a ∧ m.lookup i = some k := by
  by_cases h : i = a
  · subst h
    simp [AList.lookup_insert]
  · simp [h, AList.lookup_insert_ne h]

theorem lookup_erase_iff {a i k : ℕ} :
    (m.erase a).lookup i = some k ↔ i ≠ a ∧ m.lookup i = some k := by
  by_cases h : i = a
  · subst h
    simp [AList.lookup_erase]
  · simp [h, AList.lookup_erase_ne h]

namespace State

/-- The struct is under no id. -/
def Unregistered (s : State) (k : ℕ) : Prop := ∀ id, s.streams.lookup id ≠ some k

/-- The recycles of a struct that are under way. -/
def recycles (s : State) (k : ℕ) : ℕ :=
  s.tasks.count (.recycle k) + (s.struct k).recycleWanted.toNat

/-- What keeps a struct from being reset under a registered id: it is recycled once
per lifetime, and only after it left the registry. -/
structure Fit (s : State) (k : ℕ) : Prop where
  registered : ∀ id, s.streams.lookup id = some k →
    (s.struct k).id = id ∧ id ≠ 0 ∧ (s.struct k).owned = true
  size : (s.struct k).owned = true → k < s.size
  recycles_le : s.recycles k ≤ 1
  recycles_pos : 0 < s.recycles k →
    (s.struct k).owned = true ∧ (s.struct k).id ≠ 0 ∧ s.Unregistered k
  connDone : (s.struct k).connDone = true → (s.struct k).id ≠ 0 ∧ s.Unregistered k
  /-- A struct that waits for `Close` is not being recycled. -/
  awaiting : (s.struct k).connDone = true → (s.struct k).released = false → s.recycles k = 0
  appClosed : (s.struct k).appClosed = true →
    (s.struct k).owned = true ∧ (s.struct k).released = true
  pooled : (s.struct k).owned = false → (s.struct k).id = 0

structure WF (s : State) : Prop where
  fit : ∀ k, s.Fit k
  odd : s.nextID % 2 = 1
  promised : ∀ id l, .reservePushed id l ∈ s.tasks → id ≠ 0

/-- A step leaves a struct, its ids and its recycles alone. -/
structure Keeps (s s' : State) (k : ℕ) : Prop where
  life : (s'.struct k).life = (s.struct k).life := by rfl
  size : s.size ≤ s'.size := by rfl
  streams : ∀ id, s'.streams.lookup id = some k → s.streams.lookup id = some k := by
    exact fun _ h => h
  recycle : s'.tasks.count (.recycle k) = s.tasks.count (.recycle k) := by rfl

variable {s s' : State} {k id : ℕ}

theorem Fit.keeps (h : s.Fit k) (hk : s.Keeps s' k) : s'.Fit k := by
  have hlife := hk.life
  simp only [Stream.life, Prod.mk.injEq] at hlife
  obtain ⟨hid, howned, hconn, happ, hrel, hwant⟩ := hlife
  have hrec : s'.recycles k = s.recycles k := by simp only [recycles, hk.recycle, hwant]
  have hun : s.Unregistered k → s'.Unregistered k := fun h id hid => h id (hk.streams id hid)
  constructor
  · intro id hl
    rw [hid, howned]
    exact h.registered id (hk.streams id hl)
  · rw [howned]
    exact fun ho => Nat.lt_of_lt_of_le (h.size ho) hk.size
  · rw [hrec]
    exact h.recycles_le
  · rw [hrec, howned, hid]
    exact fun hr => (h.recycles_pos hr).imp_right fun hp => hp.imp_right hun
  · rw [hconn, hid]
    exact fun hc => (h.connDone hc).imp_right hun
  · rw [hconn, hrel, hrec]
    exact h.awaiting
  · rw [happ, howned, hrel]
    exact h.appClosed
  · rw [howned, hid]
    exact h.pooled

/-- A step leaves all structs but one alone. -/
structure Touches (s s' : State) (k : ℕ) : Prop where
  struct : ∀ j ≠ k, s'.struct j = s.struct j
  size : s.size ≤ s'.size
  streams : ∀ j ≠ k, ∀ id, s'.streams.lookup id = some j → s.streams.lookup id = some j
  recycle : ∀ j ≠ k, s'.tasks.count (.recycle j) = s.tasks.count (.recycle j)

theorem Touches.keeps (h : s.Touches s' k) {j : ℕ} (hj : j ≠ k) : s.Keeps s' j :=
  ⟨by rw [h.struct j hj], h.size, h.streams j hj, h.recycle j hj⟩

theorem Touches.trans {s₁ s₂ : State} (h : s.Touches s₁ k) (h' : s₁.Touches s₂ k) : s.Touches s₂ k where
  struct j hj := (h'.struct j hj).trans (h.struct j hj)
  size := Nat.le_trans h.size h'.size
  streams j hj id hl := h.streams j hj id (h'.streams j hj id hl)
  recycle j hj := (h'.recycle j hj).trans (h.recycle j hj)

theorem touches_modify (s : State) (k : ℕ) (f : Stream → Stream) : s.Touches (s.modify k f) k :=
  ⟨fun j hj => by simp [hj], le_rfl, fun _ _ _ h => h, fun _ _ => rfl⟩

theorem touches_allocStream (s : State) (k : ℕ) : s.Touches (s.allocStream k) k :=
  { touches_modify s k fun t => { t with owned := true, released := false } with
    size := le_max_left _ _ }

theorem touches_insert (s : State) (id k : ℕ) (f : Stream → Stream) :
    s.Touches { s.modify k f with streams := s.streams.insert id k } k := by
  refine { touches_modify s k f with streams := ?_ }
  intro j hj i hl
  rcases lookup_insert_iff.mp hl with ⟨-, hkj⟩ | ⟨-, hl⟩
  · exact absurd hkj.symm hj
  · exact hl

theorem touches_spawnRecycle (s : State) (k : ℕ) : s.Touches (s.spawn (.recycle k)) k :=
  ⟨fun _ _ => rfl, le_rfl, fun _ _ _ h => h, fun j hj => by simp [hj.symm]⟩

/-- The recycle of the struct is taken up. -/
theorem touches_recycle (s : State) (k : ℕ) (f : Stream → Stream) :
    s.Touches ({ s with tasks := s.tasks.erase (.recycle k) }.modify k f) k :=
  { touches_modify s k f with
    recycle := fun j hj => List.count_erase_of_ne (by simpa using hj) }

/-- A step that changes one struct only has that one to answer for. -/
theorem WF.local (h : s.WF) (hk : s.Touches s' k) (hfit : s'.Fit k)
    (hnext : s'.nextID = s.nextID := by rfl)
    (hprom : ∀ id l, .reservePushed id l ∈ s'.tasks → .reservePushed id l ∈ s.tasks := by
      exact fun _ _ h => h) : s'.WF := by
  refine ⟨?_, hnext ▸ h.odd, fun id l hmem => h.promised id l (hprom id l hmem)⟩
  intro j
  by_cases hj : j = k
  · exact hj ▸ hfit
  · exact (h.fit j).keeps (hk.keeps hj)

variable {f : Stream → Stream}

/-- A section that rewrites one struct. -/
theorem WF.modify (h : s.WF) (hfit : (s.modify k f).Fit k) :
    (s.modify k f).WF :=
  h.local (touches_modify s k f) hfit

/-- A step that changes none. -/
theorem WF.keeps (h : s.WF) (hk : ∀ k, s.Keeps s' k) (hnext : s'.nextID = s.nextID := by rfl)
    (hprom : ∀ id l, .reservePushed id l ∈ s'.tasks → .reservePushed id l ∈ s.tasks := by
      exact fun _ _ h => h) : s'.WF :=
  ⟨fun k => (h.fit k).keeps (hk k), hnext ▸ h.odd, fun id l hm => h.promised id l (hprom id l hm)⟩

/-- A registered struct is not being recycled. -/
theorem Fit.of_lookup (h : s.Fit k) (hl : s.streams.lookup id = some k) : s.recycles k = 0 := by
  by_contra hr
  exact (h.recycles_pos (Nat.pos_of_ne_zero hr)).2.2 id hl

/-- A struct without an id is under none, and nothing is left to do for it. -/
theorem Fit.of_id_zero (h : s.Fit k) (hid : (s.struct k).id = 0) :
    s.Unregistered k ∧ s.recycles k = 0 ∧ (s.struct k).connDone = false := by
  refine ⟨?_, ?_, ?_⟩
  · intro id hl
    obtain ⟨hid', hne, -⟩ := h.registered id hl
    exact hne (hid'.symm.trans hid)
  · by_contra hr
    exact (h.recycles_pos (Nat.pos_of_ne_zero hr)).2.1 hid
  · by_contra hc
    exact (h.connDone (by simpa using hc)).1 hid

/-! ### Sections -/

theorem WF.allocStream (h : s.WF) (hk : (s.struct k).owned = false) : (s.allocStream k).WF := by
  have hfit := h.fit k
  obtain ⟨hun, hrec, hconn⟩ := hfit.of_id_zero (hfit.pooled hk)
  have happ : (s.struct k).appClosed = false := by
    by_contra hc
    have := (hfit.appClosed (by simpa using hc)).1
    rw [hk] at this
    cases this
  have hrec' : (s.allocStream k).recycles k = 0 := by
    simpa [recycles, State.allocStream] using hrec
  refine h.local (touches_allocStream s k) ?_
  constructor
  · exact fun id hl => absurd hl (hun id)
  · exact fun _ => Nat.lt_of_lt_of_le (Nat.lt_succ_self k) (le_max_right _ _)
  · omega
  · omega
  · simp [State.allocStream, hconn]
  · exact fun _ _ => hrec'
  · simp [State.allocStream, happ]
  · simp [State.allocStream]

/-- A struct without an id gets one. -/
theorem WF.register (h : s.WF) (hid : id ≠ 0) (hzero : (s.struct k).id = 0)
    (howned : (s.struct k).owned = true)
    (hf : (f (s.struct k)).life = (id, (s.struct k).life.2)) :
    { s.modify k f with streams := s.streams.insert id k }.WF := by
  have hfit := h.fit k
  obtain ⟨hun, hrec, hconn⟩ := hfit.of_id_zero hzero
  simp only [Stream.life, Prod.mk.injEq] at hf
  obtain ⟨hfid, hfowned, hfconn, hfapp, hfrel, hfwant⟩ := hf
  refine h.local (touches_insert s id k f) ?_
  constructor
  · intro i hl
    rcases lookup_insert_iff.mp hl with ⟨rfl, -⟩ | ⟨-, hl⟩
    · simpa [hfid, hfowned] using ⟨hid, howned⟩
    · exact absurd hl (hun i)
  · simpa [hfowned] using hfit.size
  · simpa [recycles, hfwant] using hfit.recycles_le
  · intro hr
    exact absurd (by simpa [recycles, hfwant] using hrec) (Nat.ne_of_gt hr)
  · simp [hfconn, hconn]
  · simp [hfconn, hconn]
  · simpa [hfapp, hfowned, hfrel] using hfit.appClosed
  · simp [hfowned, howned]

theorem assignStreamIDLocked_eq (hid : (s.struct k).id = 0) : s.assignStreamIDLocked k =
    { s.modify k fun t => { t with id := s.nextID } with
      streams := s.streams.insert s.nextID k
      nextID := (s.nextID + 2) % 2 ^ 32 } :=
  if_neg (not_not.mpr hid)

theorem WF.assignStreamIDLocked (h : s.WF) (hid : (s.struct k).id = 0)
    (howned : (s.struct k).owned = true) : (s.assignStreamIDLocked k).WF := by
  have hodd := h.odd
  have hne : s.nextID ≠ 0 := by omega
  have hreg := h.register hne hid howned (f := fun t => { t with id := s.nextID }) rfl
  rw [assignStreamIDLocked_eq hid]
  exact ⟨fun j => { hreg.fit j with }, by simp only; omega, hreg.promised⟩

/-- Flags that neither the registry nor the pool reads. -/
theorem WF.flags (h : s.WF) (hf : (f (s.struct k)).life = (s.struct k).life) :
    (s.modify k f).WF := by
  exact h.modify ((h.fit k).keeps { life := by simpa using hf })

variable {t : Task}

theorem WF.spawn (h : s.WF) (ht : ∀ j, t ≠ .recycle j)
    (hp : ∀ id l, t ≠ .reservePushed id l) : (s.spawn t).WF := by
  refine h.keeps ?_ rfl ?_
  · exact fun j => { recycle := by simp [ht j] }
  · intro id l hm
    rcases List.mem_cons.mp hm with rfl | hm
    · exact absurd rfl (hp id l)
    · exact hm

theorem evict_eq (id k : ℕ) : s.evict id k =
    { s.modify k fun t => { t with inflightDone := true } with
      streams := s.streams.erase id
      inflight := if (s.struct k).pushed then s.inflight else s.inflight - 1
      pushInflight := if (s.struct k).pushed then s.pushInflight - 1 else s.pushInflight } := by
  unfold evict releaseSlot
  cases (s.struct k).pushed <;> rfl

theorem WF.evict (h : s.WF) (id k : ℕ) : (s.evict id k).WF := by
  have hflags : (s.modify k fun t => { t with inflightDone := true }).WF := h.flags rfl
  rw [evict_eq]
  exact hflags.keeps fun _ => { streams := fun _ hl => (lookup_erase_iff.mp hl).2 }

/-- The recycle of a closed struct that left the registry. -/
theorem WF.spawnRecycle (h : s.WF) (happ : (s.struct k).appClosed = true)
    (hun : s.Unregistered k) (hid : (s.struct k).id ≠ 0) (hrec : s.recycles k = 0) :
    (s.spawn (.recycle k)).WF := by
  have hfit := h.fit k
  obtain ⟨howned, hreleased⟩ := hfit.appClosed happ
  have hrec' : (s.spawn (.recycle k)).recycles k = 1 := by
    simp only [recycles, spawn_tasks, spawn_struct, List.count_cons_self] at hrec ⊢
    omega
  refine h.local (touches_spawnRecycle s k) ?_ rfl ?_
  · refine ⟨hfit.registered, hfit.size, hrec' ▸ le_rfl, fun _ => ⟨howned, hid, hun⟩, hfit.connDone,
      ?_, hfit.appClosed, hfit.pooled⟩
    intro _ hr
    rw [spawn_struct, hreleased] at hr
    cases hr
  · intro id l hm
    rcases List.mem_cons.mp hm with h | hm
    · cases h
    · exact hm

/-- A struct that just left the registry is handed to `Close` or recycled. -/
theorem WF.rendezvous (h : s.WF) (hun : s.Unregistered k) (hid : (s.struct k).id ≠ 0)
    (hrec : s.recycles k = 0) : (s.rendezvous k).WF := by
  have hfit := h.fit k
  unfold State.rendezvous
  split_ifs with hclosed happ
  · exact h
  · exact h.spawnRecycle happ hun hid hrec
  · apply h.modify
    constructor
    · simpa using hfit.registered
    · simpa using hfit.size
    · simpa [recycles] using hfit.recycles_le
    · intro hr
      exact absurd (by simpa [recycles] using hrec) (Nat.ne_of_gt hr)
    · intro _
      exact ⟨by simpa using hid, hun⟩
    · intro _ _
      simpa [recycles] using hrec
    · simpa using hfit.appClosed
    · simpa using hfit.pooled

/-- Taking an id out of the registry leaves its struct under none. -/
theorem Fit.unregistered_evict (h : s.Fit k) (hl : s.streams.lookup id = some k) :
    (s.evict id k).Unregistered k := by
  intro i hi
  rw [evict_eq] at hi
  obtain ⟨hne, hold⟩ := lookup_erase_iff.mp hi
  exact hne ((h.registered i hold).1.symm.trans (h.registered id hl).1)

/-- A stream that both sides have ended. -/
theorem WF.done (h : s.WF) (hl : s.streams.lookup id = some k) :
    ((s.evict id k).rendezvous k).WF := by
  have hfit := h.fit k
  refine (h.evict id k).rendezvous (hfit.unregistered_evict hl) ?_ ?_
  · simpa [evict_eq, (hfit.registered id hl).1] using (hfit.registered id hl).2.1
  · simpa [evict_eq, recycles] using hfit.of_lookup hl

theorem WF.releaseUnassignedInflight (h : s.WF) (k : ℕ) : (s.releaseUnassignedInflight k).WF := by
  unfold State.releaseUnassignedInflight
  split
  · exact h
  · have hflags : (s.modify k fun t => { t with inflightDone := true }).WF := h.flags rfl
    exact hflags.keeps fun _ => {}

theorem recycles_pos (ht : .recycle k ∈ s.tasks) : 0 < s.recycles k :=
  Nat.add_pos_left (List.count_pos_iff.mpr ht) _

/-- A struct is recycled once. -/
theorem Fit.count_erase (h : s.Fit k) : (s.tasks.erase (.recycle k)).count (.recycle k) = 0 := by
  have hle := h.recycles_le
  simp only [recycles] at hle
  rw [List.count_erase_self]
  omega

/-- A reset that is due; there may be a task for it. -/
theorem WF.resetForPool (h : s.WF) (hrec : 0 < s.recycles k) :
    ({ s with tasks := s.tasks.erase (.recycle k) }.resetForPool k).WF := by
  obtain ⟨-, -, hun⟩ := (h.fit k).recycles_pos hrec
  have hnone : ({ s with tasks := s.tasks.erase (.recycle k) }.resetForPool k).recycles k = 0 := by
    simp [State.resetForPool, recycles, (h.fit k).count_erase]
  refine h.local (touches_recycle s k _) ?_ rfl fun _ _ hm => List.mem_of_mem_erase hm
  constructor
  · exact fun id hl => absurd hl (hun id)
  · simp [State.resetForPool]
  · omega
  · omega
  · simp [State.resetForPool]
  · exact fun _ _ => hnone
  · simp [State.resetForPool]
  · simp [State.resetForPool]

/-- The recycle task leaves the reset to the reader. -/
theorem WF.park (h : s.WF) (ht : .recycle k ∈ s.tasks) :
    ({ s with tasks := s.tasks.erase (.recycle k) }.modify k
      fun t => { t with recycleWanted := true }).WF := by
  have hfit := h.fit k
  have hrec := recycles_pos ht
  obtain ⟨howned, hid, hun⟩ := hfit.recycles_pos hrec
  refine h.local (touches_recycle s k _) ?_ rfl fun _ _ hm => List.mem_of_mem_erase hm
  constructor
  · simpa using hfit.registered
  · simpa using hfit.size
  · simp [recycles, hfit.count_erase]
  · intro _
    exact ⟨by simpa using howned, by simpa using hid, hun⟩
  · intro _
    exact ⟨by simpa using hid, hun⟩
  · intro hc hr
    have := hfit.awaiting (by simpa using hc) (by simpa using hr)
    omega
  · simpa using hfit.appClosed
  · simpa using hfit.pooled

/-- `Close` marks the struct. -/
theorem WF.mark (h : s.WF) (howned : (s.struct k).owned = true) :
    (s.modify k fun t => { t with released := true, appClosed := true }).WF := by
  have hfit := h.fit k
  apply h.modify
  constructor
  · simpa using hfit.registered
  · simpa using hfit.size
  · simpa [recycles] using hfit.recycles_le
  · simpa [recycles, Unregistered] using hfit.recycles_pos
  · simpa [Unregistered] using hfit.connDone
  · simp
  · simpa using howned
  · simpa using hfit.pooled

theorem WF.close (h : s.WF) (howned : (s.struct k).owned = true)
    (hrel : (s.struct k).released = false) : (s.close k).WF := by
  have hfit := h.fit k
  have hmark := h.mark howned
  unfold State.close
  simp only
  split_ifs with hclosed hboth hconn hconn
  · exact hmark
  · obtain ⟨hid, hun⟩ := hfit.connDone hconn
    exact hmark.spawnRecycle (by simp) hun (by simpa using hid)
      (by simpa [recycles] using hfit.awaiting hconn hrel)
  · exact hmark
  · obtain ⟨hid, hun⟩ := hfit.connDone hconn
    exact (hmark.flags rfl).spawnRecycle (by simp) hun (by simpa using hid)
      (by simpa [recycles] using hfit.awaiting hconn hrel)
  · exact (hmark.flags rfl).spawn (by simp) (by simp)

theorem WF.reservePushedStream (h : s.WF) (hk : (s.struct k).owned = false) (hid : id ≠ 0) :
    (s.reservePushedStream id k).WF := by
  have hzero : ((s.allocStream k).struct k).id = 0 := by
    simpa [State.allocStream] using (h.fit k).pooled hk
  have hreg := (h.allocStream hk).register hid hzero (by simp [State.allocStream])
    (f := fun t => { t with id := id, pushed := true }) rfl
  exact hreg.keeps fun _ => {}

/-! ### What a step does -/

/-- Both ends are over and nothing more may be sent. -/
def Ended (s : State) (k : ℕ) : Prop :=
  (s.struct k).localEnded = true ∧ (s.struct k).remoteEnded = true ∧ (s.struct k).closed = true

instance (s : State) (k : ℕ) : Decidable (s.Ended k) := inferInstanceAs (Decidable (_ ∧ _ ∧ _))

/-- The part of a step that touches neither the registry nor a slot: it sets flags,
leaves tasks behind and takes up the one it runs. -/
structure Neutral (op : Op) (s s' : State) : Prop where
  life : ∀ k, (s'.struct k).life = (s.struct k).life
  slot : ∀ k, (s'.struct k).slot = (s.struct k).slot
  ended : ∀ k, s.Ended k → s'.Ended k
  size : s'.size = s.size
  streams : s'.streams = s.streams
  nextID : s'.nextID = s.nextID
  inflight : s'.inflight = s.inflight
  pushInflight : s'.pushInflight = s.pushInflight
  recycle : ∀ k, s'.tasks.count (.recycle k) = s.tasks.count (.recycle k)
  promised : ∀ id l, .reservePushed id l ∈ s'.tasks → .reservePushed id l ∈ s.tasks ∨ id ≠ 0
  tasks : ∀ t ∈ s.tasks, (∀ ok j, op ≠ .run t ok j) → t ∈ s'.tasks
  goAway : (∀ last, op ≠ .goAway last) → s'.goAwayReceived = s.goAwayReceived ∧
    s'.goAwayLastStreamID = s.goAwayLastStreamID ∧ s'.goAways = s.goAways

section Neutral

variable {op : Op} {s₀ s₁ : State}

theorem Neutral.refl (op : Op) (s : State) : Neutral op s s :=
  ⟨fun _ => rfl, fun _ => rfl, fun _ h => h, rfl, rfl, rfl, rfl, rfl, fun _ => rfl,
    fun _ _ h => .inl h, fun _ h _ => h, fun _ => ⟨rfl, rfl, rfl⟩⟩

theorem Neutral.trans (h : Neutral op s s₀) (h' : Neutral op s₀ s₁) : Neutral op s s₁ where
  life k := (h'.life k).trans (h.life k)
  slot k := (h'.slot k).trans (h.slot k)
  ended k hk := h'.ended k (h.ended k hk)
  size := h'.size.trans h.size
  streams := h'.streams.trans h.streams
  nextID := h'.nextID.trans h.nextID
  inflight := h'.inflight.trans h.inflight
  pushInflight := h'.pushInflight.trans h.pushInflight
  recycle k := (h'.recycle k).trans (h.recycle k)
  promised id l hm := (h'.promised id l hm).elim (h.promised id l) .inr
  tasks t ht hop := h'.tasks t (h.tasks t ht hop) hop
  goAway hop := by
    obtain ⟨hr, hl, hg⟩ := h.goAway hop
    obtain ⟨hr', hl', hg'⟩ := h'.goAway hop
    exact ⟨hr'.trans hr, hl'.trans hl, hg'.trans hg⟩

theorem Neutral.spawn (h : Neutral op s s₀) (ht : ∀ j, t ≠ .recycle j := by simp)
    (hp : ∀ id l, t = .reservePushed id l → id ≠ 0 := by simp) : Neutral op s (s₀.spawn t) := by
  refine h.trans { Neutral.refl op s₀ with
    recycle := ?_, promised := ?_, tasks := fun _ ht _ => List.mem_cons_of_mem _ ht }
  · intro k
    simp [ht k]
  · intro id l hm
    rcases List.mem_cons.mp hm with heq | hm
    · exact .inr (hp id l heq.symm)
    · exact .inl hm

theorem Neutral.flags (h : Neutral op s s₀)
    (hlife : (f (s₀.struct k)).life = (s₀.struct k).life)
    (hslot : (f (s₀.struct k)).slot = (s₀.struct k).slot)
    (hended : s₀.Ended k → (s₀.modify k f).Ended k) : Neutral op s (s₀.modify k f) := by
  refine h.trans { Neutral.refl op s₀ with life := ?_, slot := ?_, ended := ?_ }
  all_goals
    intro j
    by_cases hj : j = k
  · subst hj
    simpa using hlife
  · simp [hj]
  · subst hj
    simpa using hslot
  · simp [hj]
  · subst hj
    exact hended
  · simp [Ended, hj]

theorem Neutral.erase (ok : Bool) (j : ℕ) (ht : ∀ k, t ≠ .recycle k) :
    Neutral (.run t ok j) s { s with tasks := s.tasks.erase t } := by
  refine { Neutral.refl _ s with
    recycle := ?_, promised := fun _ _ hm => .inl (List.mem_of_mem_erase hm), tasks := ?_ }
  · intro k
    exact List.count_erase_of_ne (ht k).symm
  · intro t' ht' hop
    have hne : t' ≠ t := fun heq => hop ok j (heq ▸ rfl)
    exact (List.mem_erase_of_ne hne).mpr ht'

theorem Neutral.endWithReset (h : Neutral op s s₀) (k id : ℕ) :
    Neutral op s (s₀.endWithReset k id) := by
  unfold State.endWithReset
  split
  · exact h.flags rfl rfl fun _ => by simp [Ended]
  · exact h

theorem Neutral.deliver (h : Neutral op s s₀) (k id : ℕ) (endStream overflow : Bool) :
    Neutral op s (s₀.deliver k id endStream overflow) := by
  have hflags := h.flags (k := k) (f := fun t =>
    { t with remoteEnded := t.remoteEnded || endStream, closed := t.closed || overflow }) rfl rfl
    (by rintro ⟨hlocal, hremote, hclosed⟩; simp [Ended, hlocal, hremote, hclosed])
  unfold State.deliver
  simp only
  split_ifs
  · exact (hflags.spawn).spawn
  · exact hflags.spawn
  · exact hflags.spawn
  · exact hflags

theorem Neutral.sweep (h : Neutral op s s₀) (last : ℕ) : Neutral op s (s₀.sweep last) := by
  refine h.trans { Neutral.refl op s₀ with
    recycle := ?_, promised := ?_, tasks := fun _ ht _ => List.mem_append_right _ ht }
  · intro j
    have hnone : ((s₀.streams.entries.filter fun e => last < e.1).map
        (fun e => Task.victim e.2 e.1)).count (.recycle j) = 0 := by
      simp [List.count_eq_zero]
    simp [State.sweep, hnone]
  · intro id l hm
    exact .inl (by simpa [State.sweep] using hm)

end Neutral

/-- The part that does: one section that moves a struct between pool, registry and
slots, with what its guard has established. -/
inductive Section (s : State) : Op → State → Prop
  | idle {op : Op} : Section s op s
  | newStream {limit j : ℕ} {ok : Bool} (hj : (s.struct j).owned = false) :
      Section s (.run (.newStream limit) ok j) { s.allocStream j with inflight := s.inflight + 1 }
  | headers {k j : ℕ} {endStream ok : Bool} (hid : (s.struct k).id = 0) :
      Section s (.run (.headers k endStream) ok j) (s.assignStreamIDLocked k)
  | done {op : Op} {id k : ℕ} (hl : s.streams.lookup id = some k) :
      Section s op ((s.evict id k).rendezvous k)
  | evict {op : Op} {id k : ℕ} (hl : s.streams.lookup id = some k) : Section s op (s.evict id k)
  | releaseUnassigned {k j : ℕ} {ok : Bool} :
      Section s (.run (.releaseUnassigned k) ok j) (s.releaseUnassignedInflight k)
  | park {k j : ℕ} {ok : Bool} (ht : .recycle k ∈ s.tasks) :
      Section s (.run (.recycle k) ok j) ({ s with tasks := s.tasks.erase (.recycle k) }.modify k
        fun t => { t with recycleWanted := true })
  | resetForPool {op : Op} {k : ℕ} (hrec : 0 < s.recycles k) :
      Section s op ({ s with tasks := s.tasks.erase (.recycle k) }.resetForPool k)
  | close {op : Op} {k : ℕ} (howned : (s.struct k).owned = true)
      (hrel : (s.struct k).released = false) : Section s op (s.close k)
  | reservePushed {op : Op} {id k : ℕ} (hid : id ≠ 0) (hk : (s.struct k).owned = false) :
      Section s op (s.reservePushedStream id k)

theorem section_headers {endStream ok : Bool} {j : ℕ} :
    Section s (.run (.headers k endStream) ok j) (s.assignStreamIDLocked k) := by
  by_cases hid : (s.struct k).id = 0
  · exact .headers hid
  · rw [assignStreamIDLocked, if_pos hid]
    exact .idle

variable {op : Op}

theorem section_markStreamDone (id : ℕ) : Section s op (s.markStreamDone id) := by
  unfold markStreamDone
  split
  · exact .idle
  · rename_i k hl
    dsimp only
    split_ifs
    · exact .done hl
    · exact .idle

theorem section_releaseInflight (id : ℕ) : Section s op (s.releaseInflight id) := by
  unfold releaseInflight
  split
  · exact .idle
  · rename_i k hl
    split_ifs
    · exact .idle
    · exact .evict hl

/-- A step is one section between two neutral parts. -/
def Does (s : State) (op : Op) (s' : State) : Prop :=
  ∃ s₀ s₁, Neutral op s s₀ ∧ Section s₀ op s₁ ∧ Neutral op s₁ s'

theorem Neutral.does (h : Neutral op s s') : s.Does op s' :=
  ⟨s', s', h, .idle, .refl op s'⟩

theorem Neutral.then {s₀ : State} (h : Neutral op s s₀) (h' : Section s₀ op s') :
    s.Does op s' :=
  ⟨s₀, s', h, h', .refl op s'⟩

theorem does_exec {ok : Bool} {j : ℕ} (hw : s.WF) (ht : t ∈ s.tasks)
    (hs : { s with tasks := s.tasks.erase t }.exec ok j t = some s') : s.Does (.run t ok j) s' := by
  by_cases hrec : ∃ k, t = .recycle k
  · obtain ⟨k, rfl⟩ := hrec
    obtain rfl := Option.some.inj hs
    refine (Neutral.refl _ s).then ?_
    unfold recycleStream
    split_ifs
    · exact .park ht
    · exact .resetForPool (recycles_pos ht)
  have hne : ∀ k, t ≠ .recycle k := fun k hk => hrec ⟨k, hk⟩
  have h := Neutral.erase (s := s) ok j hne
  cases t with
  | newStream limit =>
    simp only [State.exec] at hs
    split_ifs at hs with hlimit howned
    · exact Option.some.inj hs ▸ h.does
    · exact Option.some.inj hs ▸ h.then (.newStream (by simpa using howned))
  | headers k endStream =>
    obtain rfl := Option.some.inj hs
    refine ⟨_, _, h, section_headers, ?_⟩
    split_ifs
    · exact (Neutral.refl _ _).spawn
    · exact .refl _ _
  | data k endStream =>
    obtain rfl := Option.some.inj hs
    split_ifs
    · exact (h.spawn).does
    · exact h.does
  | endLocal k =>
    obtain rfl := Option.some.inj hs
    refine ((h.flags rfl rfl ?_).spawn).does
    simp [Ended]
  | markStreamDone id => exact Option.some.inj hs ▸ h.then (section_markStreamDone id)
  | writeRSTStream k =>
    obtain rfl := Option.some.inj hs
    split_ifs
    · exact (h.spawn).does
    · exact (h.spawn).does
  | bestEffort k =>
    obtain rfl := Option.some.inj hs
    split_ifs
    · exact (h.spawn).does
    · exact (h.spawn).does
    · exact h.does
  | bestEffortSent k => exact Option.some.inj hs ▸ (h.spawn).does
  | writeRSTStreamID id =>
    obtain rfl := Option.some.inj hs
    split_ifs
    · exact h.then (section_releaseInflight id)
    · exact h.does
  | releaseInflight id => exact Option.some.inj hs ▸ h.then (section_releaseInflight id)
  | releaseUnassigned k => exact Option.some.inj hs ▸ h.then .releaseUnassigned
  | recycle k => exact absurd rfl (hne k)
  | recv k =>
    obtain rfl := Option.some.inj hs
    have hleft := h.flags (k := k) (f := fun t => { t with recvActive := t.recvActive - 1 }) rfl rfl
      (by simp [Ended])
    unfold recvLeave
    dsimp only
    split_ifs with hlast
    · exact hleft.does
    -- the last reader out does the reset it was left
    have hwant : (s.struct k).recycleWanted = true := by
      by_contra hc
      exact hlast (.inr (by simpa using hc))
    have hnone : Task.recycle k ∉ s.tasks.erase (.recv k) := by
      intro hmem
      have hcount := List.count_pos_iff.mpr (List.mem_of_mem_erase hmem)
      have hle := (hw.fit k).recycles_le
      simp only [recycles, hwant, Bool.toNat_true] at hle
      omega
    have hreset := hleft.then (.resetForPool (k := k) (by simp [recycles, hwant]))
    rwa [modify_tasks, List.erase_of_not_mem hnone] at hreset
  | deliver k id endStream overflow =>
    exact Option.some.inj hs ▸ (h.deliver k id endStream overflow).does
  | reset k id | victim k id =>
    obtain rfl := Option.some.inj hs
    split_ifs
    · exact ((h.endWithReset k id).spawn).does
    · exact h.does
  | streamError k id =>
    exact Option.some.inj hs ▸ ((h.endWithReset k id).spawn).does
  | reservePushed id limit =>
    simp only [State.exec] at hs
    split_ifs at hs with hlimit howned
    · exact Option.some.inj hs ▸ h.does
    · exact Option.some.inj hs ▸
        h.then (.reservePushed (hw.promised id limit ht) (by simpa using howned))
  | sweep last => exact Option.some.inj hs ▸ (h.sweep last).does

theorem does_step (hw : s.WF) (hs : s.step op = some s') : s.Does op s' := by
  have h := Neutral.refl op s
  cases op with
  | newStream limit =>
    simp only [State.step, Option.ite_none_left_eq_some, Option.some.injEq] at hs
    obtain ⟨-, rfl⟩ := hs
    exact (h.spawn).does
  | sendHeaders k gen endStream | sendData k gen endStream =>
    simp only [State.step, Transition.guarded] at hs
    obtain ⟨-, rfl⟩ := hs
    exact (h.spawn).does
  | recv k gen =>
    simp only [State.step, Transition.guarded] at hs
    obtain ⟨-, rfl⟩ := hs
    exact (h.flags rfl rfl (by simp [Ended])).spawn.does
  | close k gen =>
    simp only [State.step, Transition.guarded] at hs
    obtain ⟨⟨hvalid, hrel⟩, rfl⟩ := hs
    exact h.then (.close hvalid.1 hrel)
  | frame id endStream overflow | rstStream id =>
    simp only [State.step, Option.map_eq_some_iff] at hs
    obtain ⟨k, -, rfl⟩ := hs
    exact (h.spawn).does
  | streamError id =>
    simp only [State.step] at hs
    split at hs <;> exact Option.some.inj hs ▸ (h.spawn).does
  | promise id limit =>
    simp only [State.step, Transition.guarded] at hs
    obtain ⟨⟨hid, -⟩, rfl⟩ := hs
    refine (Neutral.spawn ?_ (by simp) ?_).does
    · exact { h with }
    · rintro i l heq
      cases heq
      exact hid
  | goAway last =>
    obtain rfl := Option.some.inj hs
    refine (Neutral.spawn ?_).does
    exact { h with goAway := fun hop => absurd rfl (hop last) }
  | run t ok j =>
    simp only [State.step, Option.ite_none_right_eq_some] at hs
    exact does_exec hw hs.1 hs.2

/-! ### Runs -/

/-- A section that assigns an id runs on a struct that is still handed out. -/
def Owned (s : State) : Op → Prop
  | .run (.headers k _) _ _ => (s.struct k).id = 0 → (s.struct k).owned = true
  | _ => True

theorem Neutral.keeps (h : Neutral op s s') (k : ℕ) : s.Keeps s' k :=
  ⟨h.life k, le_of_eq h.size.symm, fun _ hl => h.streams ▸ hl, h.recycle k⟩

theorem WF.neutral (h : s.WF) (hn : Neutral op s s') : s'.WF := by
  refine ⟨fun k => (h.fit k).keeps (hn.keeps k), hn.nextID ▸ h.odd, ?_⟩
  intro id l hm
  rcases hn.promised id l hm with hold | hid
  · exact h.promised id l hold
  · exact hid

theorem Neutral.streamID (h : Neutral op s s') (k : ℕ) : (s'.struct k).id = (s.struct k).id :=
  congrArg Prod.fst (h.life k)

theorem Neutral.owned (h : Neutral op s s') (k : ℕ) :
    (s'.struct k).owned = (s.struct k).owned :=
  congrArg Prod.fst (h.slot k)

theorem Owned.neutral (h : s.Owned op) (hn : Neutral op s s') : s'.Owned op := by
  unfold Owned
  split
  · rw [hn.streamID, hn.owned]
    exact h
  · trivial

theorem WF.section (h : s.WF) (hcond : s.Owned op) (hs : Section s op s') : s'.WF := by
  cases hs with
  | idle => exact h
  | newStream hj =>
    exact (h.allocStream hj).keeps fun _ => {}
  | headers hid => exact h.assignStreamIDLocked hid (hcond hid)
  | done hl => exact h.done hl
  | evict hl => exact h.evict _ _
  | releaseUnassigned => exact h.releaseUnassignedInflight _
  | park ht => exact h.park ht
  | resetForPool hrec => exact h.resetForPool hrec
  | close howned hrel => exact h.close howned hrel
  | reservePushed hid hk => exact h.reservePushedStream hk hid

theorem WF.step (h : s.WF) (hcond : s.Owned op) (hs : s.step op = some s') : s'.WF := by
  obtain ⟨s₀, s₁, hbefore, hsec, hafter⟩ := does_step h hs
  exact ((h.neutral hbefore).section (hcond.neutral hbefore) hsec).neutral hafter

theorem wf_init : init.WF := by
  refine ⟨?_, rfl, fun _ _ hm => by cases hm⟩
  intro k
  constructor <;> simp [init, recycles, AList.lookup_empty]

end State

end Conn.Registry
