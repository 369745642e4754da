import Mathlib.Algebra.Order.Ring.Int
import PoseidonHttp.Conn.FlowWindow
import PoseidonHttp.Lib.Transition

/-!
# Outbound flow control

Writers take credit under `fcOutMu`, in three steps: read the stream's window, debit the
connection's, debit the stream's. The reader credits stream windows under the stream's
own lock and so comes between them; a SETTINGS frame moves every registered stream by
the change of the initial window, one stream at a time.

A stream here is one lifetime: struct, id and handle are one number.
-/

namespace Conn.SendFlow

open Transition

structure Stream where
  sendWindow : ℤ := 0
  /-- It has its id, and `assignStreamIDLocked` seeded its window. -/
  seeded : Bool := false
  pushed : Bool := false
  /-- The increments credited so far. -/
  increments : ℕ := 0
  /-- The initial window it was last brought up to. -/
  base : ℤ := 0
  /-- The initial window a pushed stream, which starts at 0, was reserved under. -/
  reserved : ℤ := 0

/-- What a writer was granted: `n` octets of data in a frame padded by `pad`. -/
structure Grant where
  stream : ℕ
  n : ℤ
  pad : ℕ

/-- The octets a grant costs. -/
def Grant.cost (g : Grant) : ℤ := g.n + g.pad

/-- The writer that holds `fcOutMu`: it has read the stream's window, or debited the
connection's. -/
inductive Holder where
  | reading (k want pad : ℕ) (all : Bool) (streamWin : ℤ)
  | debiting (k : ℕ) (n : ℤ) (pad : ℕ) (debit : ℤ)

structure State where
  stream : ℕ → Stream
  registry : List ℕ
  peerConnSendWindow : ℤ
  increments : ℕ
  /-- `SETTINGS_INITIAL_WINDOW_SIZE` in `peerSettings`. -/
  initial : ℤ
  holder : Option Holder
  /-- `applyPeerSettings` in its loop: the change and the streams still to move. -/
  settling : Option (ℤ × List ℕ)
  /-- The reader has returned a connection error. -/
  failed : Bool
  /-- It has refused a SETTINGS frame in the middle of that loop. -/
  refused : Bool
  grants : List Grant

inductive Op where
  | assign (k : ℕ)
  | reserve (k : ℕ)
  | evict (k : ℕ)
  | acquire (k want pad : ℕ)
  | tryAcquireAll (k want pad : ℕ)
  /-- The holder finds its stream or the connection closed, or its context done. -/
  | bail
  | take
  | debit
  | connUpdate (increment : ℕ)
  | streamUpdate (k increment : ℕ)
  | settings (value : ℕ)
  | settle (k : ℕ)
  | settled

/-- The credit `acquireSendCredits` grants, and what it debits; `none` is a wait. -/
def acquireSendCredits (want pad : ℕ) (streamWin connWin : ℤ) : Option (ℤ × ℤ) :=
  let avail := if connWin < streamWin then connWin else streamWin
  if int32 pad < avail then
    let maxData := int32 (avail - int32 pad)
    let n := if maxData < int32 want then maxData else int32 want
    some (n, int32 (n + int32 pad))
  else none

/-- `tryAcquireSendCreditsAll`: all of it, or nothing. -/
def tryAcquireSendCreditsAll (want pad : ℕ) (streamWin connWin : ℤ) : Option (ℤ × ℤ) :=
  let need : ℤ := want + pad
  if streamWin < need ∨ connWin < need then none else some (want, int32 need)

namespace State

def init : State :=
  { stream := fun _ => {}, registry := [], peerConnSendWindow := connInitialRecvWindow,
    increments := 0, initial := connInitialRecvWindow, holder := none, settling := none,
    failed := false, refused := false, grants := [] }

variable (s : State)

/-- Change one stream. -/
@[simps]
def modify (k : ℕ) (f : Stream → Stream) : State :=
  { s with stream := Function.update s.stream k (f (s.stream k)) }

def assignStreamIDLocked (k : ℕ) : State :=
  if (s.stream k).seeded then s
  else
    { s.modify k fun t => { t with seeded := true, sendWindow := int32 s.initial, base := s.initial }
        with registry := k :: s.registry }

/-- A pushed stream is registered with no window of its own. -/
def reservePushedStream (k : ℕ) : State :=
  { s.modify k fun t => { t with pushed := true, base := s.initial, reserved := s.initial } with
    registry := k :: s.registry }

/-- The holder's next section but the last. -/
def take : Holder → Option State
  | .reading k want pad all streamWin =>
    let credits :=
      if all then tryAcquireSendCreditsAll want pad streamWin s.peerConnSendWindow
      else acquireSendCredits want pad streamWin s.peerConnSendWindow
    match credits with
    | none => some { s with holder := none }
    | some (n, debit) =>
      some { s with
        peerConnSendWindow := int32 (s.peerConnSendWindow - debit)
        holder := some (.debiting k n pad debit) }
  | .debiting .. => none

/-- The holder's last section, after which it returns the grant. -/
def debit : Holder → Option State
  | .debiting k n pad debit =>
    some { s.modify k fun t => { t with sendWindow := int32 (t.sendWindow - debit) } with
      holder := none
      grants := ⟨k, n, pad⟩ :: s.grants }
  | .reading .. => none

/-- `onWindowUpdate` on the connection. -/
def connUpdate (increment : ℕ) : State :=
  let newVal := s.peerConnSendWindow + increment
  if maxFlowWindow < newVal then { s with failed := true }
  else { s with peerConnSendWindow := int32 newVal, increments := s.increments + increment }

/-- `onWindowUpdate` on a stream; one that would overflow is a stream error. -/
def streamUpdate (k increment : ℕ) : State :=
  let newVal := (s.stream k).sendWindow + increment
  if maxFlowWindow < newVal then s
  else s.modify k fun t =>
    { t with sendWindow := int32 newVal, increments := t.increments + increment }

/-- `applyPeerSettings` up to its loop. -/
def applyPeerSettings (value : ℕ) : State :=
  if maxFlowWindow < value then { s with failed := true }
  else if (value : ℤ) = s.initial then s
  else { s with initial := value, settling := some (value - s.initial, s.registry) }

/-- One turn of the loop. -/
def settle (k : ℕ) (delta : ℤ) (rest : List ℕ) : State :=
  let newWin := (s.stream k).sendWindow + delta
  if maxFlowWindow < newWin then { s with settling := none, failed := true, refused := true }
  else
    { s.modify k fun t => { t with sendWindow := int32 newWin, base := s.initial } with
      settling := some (delta, rest.erase k) }

def step : Op → Option State
  | .assign k =>
    if s.settling.isNone ∧ (s.stream k).pushed = false then some (s.assignStreamIDLocked k) else none
  | .reserve k =>
    if s.settling.isNone ∧ (s.stream k).seeded = false ∧ (s.stream k).pushed = false then
      some (s.reservePushedStream k)
    else none
  | .evict k =>
    if s.settling.isNone then some { s with registry := s.registry.erase k } else none
  | .acquire k want pad =>
    if s.holder.isNone ∧ (s.stream k).seeded ∧ 0 < want ∧ want < 2 ^ 24 ∧ pad ≤ 256 then
      some { s with holder := some (.reading k want pad false (s.stream k).sendWindow) }
    else none
  | .tryAcquireAll k want pad =>
    if s.holder.isNone ∧ (s.stream k).seeded ∧ 0 < want then
      some { s with holder := some (.reading k want pad true (s.stream k).sendWindow) }
    else none
  | .bail =>
    match s.holder with
    | some (.reading ..) => some { s with holder := none }
    | _ => none
  | .take => s.holder.bind s.take
  | .debit => s.holder.bind s.debit
  | .connUpdate increment =>
    if s.holder.isNone ∧ s.failed = false then some (s.connUpdate increment) else none
  | .streamUpdate k increment =>
    -- the stream was looked up before and may have been evicted since
    if s.failed = false ∧ ((s.stream k).seeded ∨ (s.stream k).pushed) then
      some (s.streamUpdate k increment)
    else none
  | .settings value =>
    if s.settling.isNone ∧ s.failed = false then some (s.applyPeerSettings value) else none
  | .settle k =>
    match s.settling with
    | some (delta, rest) => if k ∈ rest then some (s.settle k delta rest) else none
    | none => none
  | .settled =>
    match s.settling with
    | some (_, []) => some { s with settling := none }
    | _ => none

end State

/-- The send side of a connection. -/
def system : System State Op := ⟨State.init, State.step⟩

/-! ## Credit -/

/-- A grant that both windows cover, debited as it is. -/
structure Affordable (n : ℤ) (pad : ℕ) (debit streamWin connWin : ℤ) : Prop where
  pos : 1 ≤ n
  cost : debit = n + pad
  stream : debit ≤ streamWin
  conn : debit ≤ connWin

variable {want pad : ℕ} {streamWin connWin n d : ℤ}

theorem acquireSendCredits_affordable (hpos : 0 < want) (hwant : want < 2 ^ 24) (hpad : pad ≤ 256)
    (hstream : streamWin ≤ maxFlowWindow)
    (h : acquireSendCredits want pad streamWin connWin = some (n, d)) :
    Affordable n pad d streamWin connWin := by
  simp only [maxFlowWindow] at hstream
  have hpad32 : int32 pad = pad := int32_natCast (by simp only [maxFlowWindow]; omega)
  have hwant32 : int32 want = want := int32_natCast (by simp only [maxFlowWindow]; omega)
  simp only [acquireSendCredits, hpad32, hwant32] at h
  generalize havail : (if connWin < streamWin then connWin else streamWin) = avail at h
  have hle : avail ≤ streamWin ∧ avail ≤ connWin := by
    rw [← havail]
    split <;> omega
  split at h
  · have hdata : int32 (avail - pad) = avail - pad :=
      int32_eq (by omega) (by simp only [maxFlowWindow]; omega)
    rw [hdata] at h
    obtain ⟨rfl, rfl⟩ := h
    split
    · have hcost : int32 (avail - pad + pad) = avail - pad + pad :=
        int32_eq (by omega) (by simp only [maxFlowWindow]; omega)
      exact ⟨by omega, hcost, by omega, by omega⟩
    · have hcost : int32 ((want : ℤ) + pad) = want + pad :=
        int32_eq (by omega) (by simp only [maxFlowWindow]; omega)
      exact ⟨by omega, hcost, by omega, by omega⟩
  · cases h

theorem tryAcquireSendCreditsAll_affordable (hpos : 0 < want) (hstream : streamWin ≤ maxFlowWindow)
    (h : tryAcquireSendCreditsAll want pad streamWin connWin = some (n, d)) :
    Affordable n pad d streamWin connWin := by
  simp only [tryAcquireSendCreditsAll] at h
  split_ifs at h
  obtain ⟨rfl, rfl⟩ := h
  have hcost : int32 ((want : ℤ) + pad) = want + pad := int32_eq (by omega) (by omega)
  exact ⟨by omega, hcost, by omega, by omega⟩

/-! ## Windows -/

/-- One stream's window, with what was debited from it; `drawn` is what keeps it from
falling below its range when the initial window shrinks under what was granted already. -/
structure Stream.Tracked (t : Stream) (debited : ℤ) : Prop where
  window : t.sendWindow = t.base - t.reserved + t.increments - debited
  upper : t.sendWindow ≤ maxFlowWindow
  base : 0 ≤ t.base ∧ t.base ≤ maxFlowWindow
  reserved : 0 ≤ t.reserved ∧ t.reserved ≤ maxFlowWindow
  drawn : debited ≤ maxFlowWindow + t.increments
  own : t.pushed = false → t.reserved = 0
  pushed : t.pushed = true → debited = 0
  seeded : t.seeded = true → t.pushed = false
  fresh : t.seeded = false → t.pushed = false → t.sendWindow = 0 ∧ t.increments = 0 ∧ debited = 0

theorem Stream.Tracked.lower {t : Stream} {debited : ℤ} (h : t.Tracked debited) :
    -maxFlowWindow ≤ t.sendWindow := by
  have hwindow := h.window
  have hbase := h.base
  have hreserved := h.reserved
  have hdrawn := h.drawn
  by_cases hp : t.pushed = true
  · have := h.pushed hp
    omega
  · have := h.own (by simpa using hp)
    omega

/-- What may happen to a stream without taking from the holder what it has read. -/
structure Stream.Grows (t t' : Stream) : Prop where
  seeded : t.seeded = true → t'.seeded = true
  increments : t.increments ≤ t'.increments

/-- What the holder has debited from the connection and not yet from its stream. -/
def Holder.pending : Holder → ℤ
  | .reading .. => 0
  | .debiting _ n pad _ => n + pad

namespace State

/-- The octets debited from a stream's window. -/
def debited (s : State) (k : ℕ) : ℤ := ((s.grants.filter fun g => g.stream = k).map Grant.cost).sum

/-- The octets debited from the connection's. -/
def debitedConn (s : State) : ℤ :=
  (s.grants.map Grant.cost).sum + (s.holder.elim 0 Holder.pending)

/-- Every registered stream's window is the initial window in force and its increments,
less what was debited. -/
def UpToDate (s : State) : Prop :=
  ∀ k ∈ s.registry, (s.stream k).pushed = false →
    (s.stream k).sendWindow = s.initial + (s.stream k).increments - s.debited k

instance (s : State) : Decidable s.UpToDate := inferInstanceAs (Decidable (∀ k ∈ s.registry, _))

/-- The peer is never overrun, and no window leaves its range or loses count. A grant
costs both windows its data and its padding; while SETTINGS frames are applied, and once
one was refused, a window counts from the initial value the stream was last brought up
to. -/
structure Sound (s : State) : Prop where
  conn : s.debitedConn ≤ connInitialRecvWindow + s.increments
  connExact : s.peerConnSendWindow = connInitialRecvWindow + s.increments - s.debitedConn
  connRange : -maxFlowWindow ≤ s.peerConnSendWindow ∧ s.peerConnSendWindow ≤ maxFlowWindow
  streamExact : ∀ k, (s.stream k).pushed = false →
    (s.stream k).sendWindow = (s.stream k).base + (s.stream k).increments - s.debited k
  streamRange : ∀ k, -maxFlowWindow ≤ (s.stream k).sendWindow ∧
    (s.stream k).sendWindow ≤ maxFlowWindow
  current : s.refused = false → s.settling = none → s.UpToDate
  granted : ∀ g ∈ s.grants, 1 ≤ g.n

/-- What the holder may still debit was within the window it read, and the stream has
granted nothing else since. -/
def Held (s : State) : Holder → Prop
  | .reading k want pad all streamWin =>
    (s.stream k).seeded = true ∧ 0 < want ∧ (all = false → want < 2 ^ 24 ∧ pad ≤ 256) ∧
      streamWin ≤ maxFlowWindow ∧ s.debited k + streamWin ≤ maxFlowWindow + (s.stream k).increments
  | .debiting k n pad debit =>
    (s.stream k).seeded = true ∧ 1 ≤ n ∧ debit = n + pad ∧
      s.debited k + debit ≤ maxFlowWindow + (s.stream k).increments

/-- The connection's window, the grants and the one under way. -/
structure Paid (s : State) : Prop where
  conn : s.peerConnSendWindow = connInitialRecvWindow + s.increments - s.debitedConn
  connRange : 0 ≤ s.peerConnSendWindow ∧ s.peerConnSendWindow ≤ maxFlowWindow
  held : ∀ h, s.holder = some h → s.Held h
  granted : ∀ g ∈ s.grants, 1 ≤ g.n

/-- The registered streams are brought up to the initial window in `peerSettings`, but
for those a SETTINGS frame still has to move. -/
structure Listed (s : State) : Prop where
  initial : 0 ≤ s.initial ∧ s.initial ≤ maxFlowWindow
  nodup : s.registry.Nodup
  registered : ∀ k ∈ s.registry, (s.stream k).seeded = true ∨ (s.stream k).pushed = true
  current : s.refused = false → s.settling = none → ∀ k ∈ s.registry, (s.stream k).base = s.initial
  settling : ∀ delta rest, s.settling = some (delta, rest) → rest.Nodup ∧
    (∀ k ∈ rest, k ∈ s.registry ∧ (s.stream k).base + delta = s.initial) ∧
    ∀ k ∈ s.registry, k ∉ rest → (s.stream k).base = s.initial
  refused : s.failed = false → s.refused = false

structure Inv (s : State) : Prop where
  tracked : ∀ k, (s.stream k).Tracked (s.debited k)
  paid : s.Paid
  listed : s.Listed

variable {s s' : State} {k : ℕ} {f : Stream → Stream} {hd : Holder}

theorem debited_congr (h : s'.grants = s.grants) (k : ℕ) : s'.debited k = s.debited k := by
  simp only [debited, h]

theorem debited_cons_self {g : Grant} (h : s'.grants = g :: s.grants) :
    s'.debited g.stream = s.debited g.stream + g.cost := by
  simp [debited, h, add_comm]

theorem debited_cons_of_ne {g : Grant} (h : s'.grants = g :: s.grants) (hk : k ≠ g.stream) :
    s'.debited k = s.debited k := by
  simp [debited, h, hk.symm]

theorem Inv.streamExact (h : s.Inv) (hp : (s.stream k).pushed = false) :
    (s.stream k).sendWindow = (s.stream k).base + (s.stream k).increments - s.debited k := by
  have hwindow := (h.tracked k).window
  have hown := (h.tracked k).own hp
  omega

theorem Inv.sound (h : s.Inv) : s.Sound := by
  have hconn := h.paid.conn
  have hrange := h.paid.connRange
  refine ⟨by omega, hconn, ?_, fun k hp => h.streamExact hp, ?_, ?_, h.paid.granted⟩
  · omega
  · exact fun k => ⟨(h.tracked k).lower, (h.tracked k).upper⟩
  · intro hf hset k hk hp
    have hbase := h.listed.current hf hset k hk
    have := h.streamExact hp
    omega

/-- Credits and SETTINGS frames do not take from the holder what it has read. -/
theorem Held.mono (h : s.Held hd) (hg : s'.grants = s.grants)
    (hgrows : ∀ k, (s.stream k).Grows (s'.stream k)) : s'.Held hd := by
  cases hd with
  | reading k want pad all streamWin =>
    obtain ⟨hs, hpos, hall, hmax, hdrawn⟩ := h
    refine ⟨(hgrows k).seeded hs, hpos, hall, hmax, ?_⟩
    rw [debited_congr hg]
    have := (hgrows k).increments
    omega
  | debiting k n pad debit =>
    obtain ⟨hs, hpos, hcost, hdrawn⟩ := h
    refine ⟨(hgrows k).seeded hs, hpos, hcost, ?_⟩
    rw [debited_congr hg]
    have := (hgrows k).increments
    omega

/-- A step that changes one stream and leaves the connection's window and the grants alone. -/
theorem Paid.modify (h : s.Paid) (hk : (s.stream k).Grows (f (s.stream k))) :
    (s.modify k f).Paid := by
  refine { h with held := fun hd heq => (h.held hd heq).mono rfl ?_ }
  intro j
  by_cases hj : j = k
  · subst hj
    simpa using hk
  · simpa [hj] using ⟨fun hs => hs, le_rfl⟩

/-- A step that moves one stream's window and leaves the registry and SETTINGS alone. -/
theorem Listed.modify (h : s.Listed)
    (hf : (f (s.stream k)).seeded = (s.stream k).seeded ∧
      (f (s.stream k)).pushed = (s.stream k).pushed ∧
      (f (s.stream k)).base = (s.stream k).base) : (s.modify k f).Listed := by
  have hstream (j : ℕ) : ((s.modify k f).stream j).seeded = (s.stream j).seeded ∧
      ((s.modify k f).stream j).pushed = (s.stream j).pushed ∧
      ((s.modify k f).stream j).base = (s.stream j).base := by
    by_cases hj : j = k
    · subst hj
      simpa using hf
    · simp [hj]
  constructor
  · exact h.initial
  · exact h.nodup
  · simp only [hstream]
    exact h.registered
  · simp only [hstream]
    exact h.current
  · simp only [hstream]
    exact h.settling
  · exact h.refused

/-- A step that changes one stream. -/
theorem tracked_update {t : Stream} (h : ∀ k, (s.stream k).Tracked (s.debited k))
    (hs : s'.stream = Function.update s.stream k t) (hd : ∀ j ≠ k, s'.debited j = s.debited j)
    (hk : t.Tracked (s'.debited k)) (j : ℕ) : (s'.stream j).Tracked (s'.debited j) := by
  by_cases hj : j = k
  · subst hj
    simpa [hs] using hk
  · rw [hd j hj]
    simpa [hs, hj] using h j

section Changes

variable (h : s.Inv)

include h

/-- A new stream enters the registry at the initial window in force. -/
theorem Inv.enter (hset : s.settling = none)
    (hseeded : (s.stream k).seeded = false) (hp : (s.stream k).pushed = false)
    (hk : (f (s.stream k)).Tracked (s.debited k))
    (hbase : (f (s.stream k)).base = s.initial)
    (hknown : (f (s.stream k)).seeded = true ∨ (f (s.stream k)).pushed = true)
    (hinc : (s.stream k).increments ≤ (f (s.stream k)).increments) :
    { s.modify k f with registry := k :: s.registry }.Inv := by
  have hnotin : k ∉ s.registry := by
    intro hmem
    rcases h.listed.registered k hmem with hk | hk
    · rw [hseeded] at hk
      cases hk
    · rw [hp] at hk
      cases hk
  have hother : ∀ j ∈ s.registry, j ≠ k := fun j hj heq => hnotin (heq ▸ hj)
  have hgrows : (s.stream k).Grows (f (s.stream k)) := by
    refine ⟨fun hs => ?_, hinc⟩
    rw [hseeded] at hs
    cases hs
  refine ⟨tracked_update h.tracked rfl (fun _ _ => rfl) hk, { h.paid.modify hgrows with },
    h.listed.initial, List.nodup_cons.mpr ⟨hnotin, h.listed.nodup⟩, ?_, ?_, ?_,
    h.listed.refused⟩
  · intro j hj
    rcases List.mem_cons.mp hj with rfl | hj
    · simpa using hknown
    · simpa [hother j hj] using h.listed.registered j hj
  · intro hf hs j hj
    rcases List.mem_cons.mp hj with rfl | hj
    · simpa using hbase
    · simpa [hother j hj] using h.listed.current hf hset j hj
  · intro delta rest hs
    rw [modify_settling, hset] at hs
    cases hs

theorem Inv.assign (hset : s.settling = none) (hp : (s.stream k).pushed = false) :
    (s.assignStreamIDLocked k).Inv := by
  unfold assignStreamIDLocked
  split
  · exact h
  rename_i hne
  have hseeded : (s.stream k).seeded = false := by simpa using hne
  have hk := h.tracked k
  obtain ⟨-, hinc, hdeb⟩ := hk.fresh hseeded hp
  have hres := hk.own hp
  have hinit := h.listed.initial
  have h32 : int32 s.initial = s.initial := int32_eq (by omega) hinit.2
  refine h.enter hset hseeded hp ?_ rfl (.inl rfl) le_rfl
  rw [hdeb]
  constructor <;> simp only [h32, hres, hinc, hp]
  · omega
  · exact hinit.2
  · exact hinit
  · exact ⟨le_rfl, by simp [maxFlowWindow]⟩
  · simp [maxFlowWindow]
  all_goals simp

theorem Inv.reserve (hset : s.settling = none) (hseeded : (s.stream k).seeded = false)
    (hp : (s.stream k).pushed = false) : (s.reservePushedStream k).Inv := by
  obtain ⟨hwin, hinc, hdeb⟩ := (h.tracked k).fresh hseeded hp
  have hinit := h.listed.initial
  refine h.enter hset hseeded hp ?_ rfl (.inr rfl) le_rfl
  rw [hdeb]
  constructor <;> simp only [hwin, hinc, hseeded]
  · omega
  · simp [maxFlowWindow]
  · exact hinit
  · exact hinit
  · simp [maxFlowWindow]
  all_goals simp

theorem Inv.evict (hset : s.settling = none) (k : ℕ) :
    { s with registry := s.registry.erase k }.Inv := by
  refine ⟨h.tracked, { h.paid with }, ?_⟩
  refine ⟨h.listed.initial, h.listed.nodup.erase k, ?_, ?_, ?_, h.listed.refused⟩
  · exact fun j hj => h.listed.registered j (List.mem_of_mem_erase hj)
  · exact fun hf _ j hj => h.listed.current hf hset j (List.mem_of_mem_erase hj)
  · intro delta rest hs
    rw [hset] at hs
    cases hs

/-- A writer takes `fcOutMu` and reads the window of its stream. -/
theorem Inv.read {want pad : ℕ} {all : Bool} (hh : s.holder = none)
    (hseeded : (s.stream k).seeded = true) (hpos : 0 < want)
    (hall : all = false → want < 2 ^ 24 ∧ pad ≤ 256) :
    { s with holder := some (.reading k want pad all (s.stream k).sendWindow) }.Inv := by
  have hk := h.tracked k
  refine ⟨h.tracked, ⟨?_, h.paid.connRange, ?_, h.paid.granted⟩,
    { h.listed with }⟩
  · have := h.paid.conn
    simpa [debitedConn, hh, Holder.pending] using this
  intro hd heq
  obtain rfl := Option.some.inj heq
  refine ⟨hseeded, hpos, hall, hk.upper, ?_⟩
  have hwindow := hk.window
  have hbase := hk.base
  have hres := hk.reserved
  change s.debited k + _ ≤ maxFlowWindow + (s.stream k).increments
  omega

/-- It gives up, or waits. -/
theorem Inv.release (hpend : s.holder.elim 0 Holder.pending = 0) :
    { s with holder := none }.Inv := by
  refine ⟨h.tracked, ⟨?_, h.paid.connRange, fun hd heq => (by cases heq), h.paid.granted⟩,
    { h.listed with }⟩
  have := h.paid.conn
  simpa [debitedConn, hpend] using this

theorem Inv.take (hh : s.holder = some hd) (hs : s.take hd = some s') : s'.Inv := by
  cases hd with
  | debiting k n pad debit => cases hs
  | reading k want pad all streamWin =>
    obtain ⟨hseeded, hpos, hall, hmax, hdrawn⟩ := h.paid.held _ hh
    simp only [State.take] at hs
    split at hs
    · obtain rfl := Option.some.inj hs
      exact h.release (by simp [hh, Holder.pending])
    rename_i n d hcredits
    obtain rfl := Option.some.inj hs
    have hafford : Affordable n pad d streamWin s.peerConnSendWindow := by
      split at hcredits
      · exact tryAcquireSendCreditsAll_affordable hpos hmax hcredits
      · rename_i hall'
        obtain ⟨hwant, hpad⟩ := hall (by simpa using hall')
        exact acquireSendCredits_affordable hpos hwant hpad hmax hcredits
    have hn := hafford.pos
    have hcost := hafford.cost
    have hstream := hafford.stream
    have hconn := hafford.conn
    have hrange := h.paid.connRange
    have h32 : int32 (s.peerConnSendWindow - d) = s.peerConnSendWindow - d :=
      int32_eq (by omega) (by omega)
    refine ⟨h.tracked, ⟨?_, ?_, ?_, h.paid.granted⟩,
      { h.listed with }⟩
    · have := h.paid.conn
      simp only [debitedConn, hh, Option.elim_some, Holder.pending] at this ⊢
      omega
    · simp only [h32]
      omega
    · intro hd heq
      obtain rfl := Option.some.inj heq
      refine ⟨hseeded, hn, hcost, ?_⟩
      change s.debited k + _ ≤ maxFlowWindow + (s.stream k).increments
      omega

theorem Inv.debit (hh : s.holder = some hd) (hs : s.debit hd = some s') : s'.Inv := by
  cases hd with
  | reading k want pad all streamWin => cases hs
  | debiting k n pad debit =>
    obtain ⟨hseeded, hn, hcost, hdrawn⟩ := h.paid.held _ hh
    obtain rfl := Option.some.inj hs
    have hk := h.tracked k
    have hpushed := hk.seeded hseeded
    have hown := hk.own hpushed
    have hwindow := hk.window
    have hbase := hk.base
    have hupper := hk.upper
    have h32 : int32 ((s.stream k).sendWindow - debit) = (s.stream k).sendWindow - debit := by
      refine int32_eq ?_ (by omega)
      simp only [maxFlowWindow] at hdrawn
      omega
    refine ⟨tracked_update h.tracked rfl ?_ ?_, ⟨?_, h.paid.connRange, ?_, ?_⟩, ?_⟩
    · exact fun j hj => debited_cons_of_ne rfl hj
    · rw [debited_cons_self (g := ⟨k, n, pad⟩) rfl]
      simp only [Grant.cost, h32]
      refine ⟨?_, ?_, hbase, hk.reserved, ?_, hk.own, ?_, hk.seeded, ?_⟩ <;> simp only
      · omega
      · omega
      · omega
      · simp [hpushed]
      · simp [hseeded]
    · have := h.paid.conn
      simp only [debitedConn, hh, Option.elim_some, Option.elim_none, Holder.pending, modify_increments,
        modify_peerConnSendWindow, List.map_cons, List.sum_cons, Grant.cost] at this ⊢
      omega
    · exact fun hd heq => (by cases heq)
    · exact List.forall_mem_cons.mpr ⟨hn, h.paid.granted⟩
    · exact { h.listed.modify
        (f := fun t => { t with sendWindow := int32 (t.sendWindow - debit) }) ⟨rfl, rfl, rfl⟩ with }

/-- The reader stops at a connection error; the writers may still go on. -/
theorem Inv.fail : { s with failed := true }.Inv :=
  ⟨h.tracked, { h.paid with }, { h.listed with refused := fun hf => (by cases hf) }⟩

theorem Inv.connUpdate (hh : s.holder = none) (increment : ℕ) : (s.connUpdate increment).Inv := by
  unfold State.connUpdate
  simp only
  split
  · exact h.fail
  have hrange := h.paid.connRange
  have h32 : int32 (s.peerConnSendWindow + increment) = s.peerConnSendWindow + increment :=
    int32_eq (by omega) (by omega)
  refine ⟨h.tracked, ⟨?_, ?_, ?_, h.paid.granted⟩,
    { h.listed with }⟩
  · have := h.paid.conn
    simp only [debitedConn, hh, h32] at this ⊢
    omega
  · simp only [h32]
    omega
  · intro hd heq
    rw [show s.holder = some hd from heq] at hh
    cases hh

theorem Inv.streamUpdate (k increment : ℕ)
    (hknown : (s.stream k).seeded = true ∨ (s.stream k).pushed = true) :
    (s.streamUpdate k increment).Inv := by
  unfold State.streamUpdate
  simp only
  split
  · exact h
  have hk := h.tracked k
  have hwindow := hk.window
  have hdrawn := hk.drawn
  have hlower := hk.lower
  have h32 : int32 ((s.stream k).sendWindow + increment) = (s.stream k).sendWindow + increment := by
    refine int32_eq ?_ (by omega)
    simp only [maxFlowWindow] at hlower
    omega
  refine ⟨tracked_update h.tracked rfl (fun _ _ => rfl) ?_, h.paid.modify ⟨fun hs => hs, by simp⟩,
    h.listed.modify ⟨rfl, rfl, rfl⟩⟩
  · change Stream.Tracked _ (s.debited k)
    refine ⟨?_, ?_, hk.base, hk.reserved, ?_, hk.own, hk.pushed, hk.seeded, ?_⟩ <;> simp only
    · omega
    · omega
    · omega
    · intro hs hp
      simp [hs, hp] at hknown

theorem Inv.settings (hset : s.settling = none) (hfailed : s.failed = false)
    (value : ℕ) : (s.applyPeerSettings value).Inv := by
  unfold applyPeerSettings
  split_ifs
  · exact h.fail
  · exact h
  · refine ⟨h.tracked, { h.paid with }, ?_⟩
    refine ⟨⟨by simp, by simp only; omega⟩, h.listed.nodup, h.listed.registered, ?_, ?_,
      h.listed.refused⟩
    · intro _ hs
      cases hs
    -- nothing has moved yet
    intro delta rest hs
    obtain ⟨rfl, rfl⟩ := hs
    refine ⟨h.listed.nodup, ?_, fun j hj hn => absurd hj hn⟩
    intro j hj
    have := h.listed.current (h.listed.refused hfailed) hset j hj
    exact ⟨hj, by simp only; omega⟩

/-- A stream is moved by the change, or overflows and ends the loop. -/
theorem Inv.settle {delta : ℤ} {rest : List ℕ} (hset : s.settling = some (delta, rest))
    (hmem : k ∈ rest) : (s.settle k delta rest).Inv := by
  obtain ⟨hnodup, hpending, hmoved⟩ := h.listed.settling delta rest hset
  obtain ⟨hreg, hbase⟩ := hpending k hmem
  have hinit := h.listed.initial
  unfold State.settle
  simp only
  split
  · refine ⟨h.tracked, { h.paid with }, ?_⟩
    exact { h.listed with
      current := fun hf => (by cases hf)
      settling := fun _ _ hs => (by cases hs)
      refused := fun hf => (by cases hf) }
  · have hk := h.tracked k
    have hwindow := hk.window
    have hdrawn := hk.drawn
    have hres := hk.reserved
    have hnew : -maxFlowWindow ≤ (s.stream k).sendWindow + delta := by
      by_cases hp : (s.stream k).pushed = true
      · have := hk.pushed hp
        omega
      · have := hk.own (by simpa using hp)
        omega
    have h32 : int32 ((s.stream k).sendWindow + delta) = (s.stream k).sendWindow + delta := by
      refine int32_eq ?_ (by omega)
      simp only [maxFlowWindow] at hnew
      omega
    have hpaid := h.paid.modify (k := k) (f := fun t =>
      { t with sendWindow := int32 ((s.stream k).sendWindow + delta), base := s.initial })
      ⟨fun hs => hs, le_rfl⟩
    refine ⟨tracked_update h.tracked rfl (fun _ _ => rfl) ?_, { hpaid with }, ?_⟩
    · change Stream.Tracked _ (s.debited k)
      refine ⟨?_, ?_, hinit, hres, hdrawn, hk.own, hk.pushed, hk.seeded, ?_⟩ <;> simp only
      · omega
      · omega
      · intro hs hp
        rcases h.listed.registered k hreg with hk | hk
        · rw [hs] at hk
          cases hk
        · rw [hp] at hk
          cases hk
    · refine ⟨hinit, h.listed.nodup, ?_, fun _ hs => (by cases hs), ?_, h.listed.refused⟩
      · intro j hj
        by_cases hjk : j = k
        · subst hjk
          simpa using h.listed.registered j hreg
        · simpa [hjk] using h.listed.registered j hj
      · intro delta' rest' hs
        obtain ⟨rfl, rfl⟩ := hs
        refine ⟨hnodup.erase k, ?_, ?_⟩
        · intro j hj
          obtain ⟨hjk, hj⟩ := hnodup.mem_erase_iff.mp hj
          simpa [hjk] using hpending j hj
        · intro j hj hn
          by_cases hjk : j = k
          · subst hjk
            simp
          · have : j ∉ rest := fun hr => hn (hnodup.mem_erase_iff.mpr ⟨hjk, hr⟩)
            simpa [hjk] using hmoved j hj this

/-- The loop is over. -/
theorem Inv.settled {delta : ℤ} (hset : s.settling = some (delta, [])) :
    { s with settling := none }.Inv := by
  obtain ⟨-, -, hmoved⟩ := h.listed.settling delta [] hset
  refine ⟨h.tracked, { h.paid with }, ?_⟩
  exact { h.listed with
    current := fun _ _ j hj => hmoved j hj (by simp)
    settling := fun _ _ hs => (by cases hs) }

end Changes

theorem Inv.step {op : Op} (h : s.Inv) (hs : s.step op = some s') : s'.Inv := by
  cases op <;> simp only [State.step, Transition.guarded, Option.isNone_iff_eq_none] at hs
  case assign k =>
    obtain ⟨⟨hset, hp⟩, rfl⟩ := hs
    exact h.assign hset hp
  case reserve k =>
    obtain ⟨⟨hset, hseeded, hp⟩, rfl⟩ := hs
    exact h.reserve hset hseeded hp
  case evict k =>
    obtain ⟨hset, rfl⟩ := hs
    exact h.evict hset k
  case acquire k want pad =>
    obtain ⟨⟨hh, hseeded, hpos, hwant, hpad⟩, rfl⟩ := hs
    exact h.read hh hseeded hpos fun _ => ⟨hwant, hpad⟩
  case tryAcquireAll k want pad =>
    obtain ⟨⟨hh, hseeded, hpos⟩, rfl⟩ := hs
    exact h.read hh hseeded hpos fun hall => (by cases hall)
  case bail =>
    split at hs
    · rename_i hh
      obtain rfl := Option.some.inj hs
      exact h.release (by simp [hh, Holder.pending])
    · cases hs
  case take =>
    obtain ⟨hd, hh, hs⟩ := Option.bind_eq_some_iff.mp hs
    exact h.take hh hs
  case debit =>
    obtain ⟨hd, hh, hs⟩ := Option.bind_eq_some_iff.mp hs
    exact h.debit hh hs
  case connUpdate increment =>
    obtain ⟨⟨hh, -⟩, rfl⟩ := hs
    exact h.connUpdate hh increment
  case streamUpdate k increment =>
    obtain ⟨⟨-, hknown⟩, rfl⟩ := hs
    exact h.streamUpdate k increment hknown
  case settings value =>
    obtain ⟨⟨hset, hfailed⟩, rfl⟩ := hs
    exact h.settings hset hfailed value
  case settle k =>
    split at hs
    · rename_i delta rest hset
      simp only [Transition.guarded] at hs
      obtain ⟨hmem, rfl⟩ := hs
      exact h.settle hset hmem
    · cases hs
  case settled =>
    split at hs
    · rename_i delta hset
      obtain rfl := Option.some.inj hs
      exact h.settled hset
    · cases hs

theorem inv_init : init.Inv := by
  refine ⟨?_, ⟨rfl, ?_, fun _ heq => (by cases heq), fun _ hg => (by cases hg)⟩, ?_⟩
  · intro k
    constructor <;> simp [init, debited, maxFlowWindow]
  · simp [init, connInitialRecvWindow, maxFlowWindow]
  · exact ⟨by simp [init, connInitialRecvWindow, maxFlowWindow], List.nodup_nil,
      fun _ hk => (by cases hk), fun _ _ _ hk => (by cases hk), fun _ _ hs => (by cases hs), fun _ => rfl⟩

end State

/-- Outbound flow control in every state of every interleaving. -/
theorem sound_of_reachable {s : State} (h : system.Reachable s) : s.Sound :=
  (h.invariant State.inv_init fun _ _ _ hs _ hstep => hs.step hstep : s.Inv).sound

/-- A SETTINGS frame shrinks the initial window between the two halves of a grant. -/
def shrinkRun : List Op :=
  [.assign 0, .acquire 0 1000 9, .settings 100, .settle 0, .settled, .take, .streamUpdate 0 50,
    .debit]

theorem sound_of_reachable_shrinkRun : ∃ s, system.run system.init shrinkRun = some s ∧ s.Sound ∧
    (s.stream 0).sendWindow = 100 + 50 - 1009 ∧ s.peerConnSendWindow = 65535 - 1009 := by
  apply System.exists_run_and shrinkRun
  · intro s hs
    exact sound_of_reachable (System.reachable_of_run hs)
  · decide +kernel

/-- A SETTINGS frame that would overflow a stream's window: the new initial window is
stored, the connection error raised and the window left as it is. -/
def overflowRun : List Op :=
  [.assign 0, .streamUpdate 0 (2 ^ 31 - 1 - 65535), .settings 65536, .settle 0]

theorem refused_settings_leave_window :
    ∃ s, system.Reachable s ∧ s.settling = none ∧ ¬ s.UpToDate := by
  apply System.exists_reachable overflowRun
  decide +kernel

end Conn.SendFlow
