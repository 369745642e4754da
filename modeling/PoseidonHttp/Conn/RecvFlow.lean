import PoseidonHttp.Conn.FlowWindow
import PoseidonHttp.Frame.Types
import PoseidonHttp.Lib.Transition

/-!
# Inbound flow control

Every DATA frame is debited from the connection's window and from its stream's, and
each window is refunded in batches: what was spent is kept pending until it reaches a
threshold, and then the window is restored to its target. A target starts at the window
in force and only rises, by `StaticConnWindowSize` or by the tuner.

So between refunds a window is its level after the last one less what is pending, the
level is at least the initial window, and the threshold is at most that: the window
never runs dry.
-/

namespace Conn.RecvFlow

open Transition Frame

/-! ## Options -/

/-- `ConnOptions` and `AdvertisedSettings`, the fields that the windows depend on. -/
structure Options where
  initialWindowSize : ℕ
  maxFrameSize : ℕ
  streamEventBuffer : ℕ
  staticConnWindowSize : ℕ
  autoTuneRecvWindow : Bool
  maxRecvWindow : ℕ

def frameSizeFloor : ℕ := 2 ^ 14

def frameSizeCeil : ℕ := 2 ^ 24 - 1

def Options.defaulted (o : Options) : Options :=
  { o with
    initialWindowSize := if o.initialWindowSize = 0 then 65535 else o.initialWindowSize
    -- `DefaultMaxFrameSize` is the floor
    maxFrameSize :=
      if o.maxFrameSize < frameSizeFloor then frameSizeFloor
      else if frameSizeCeil < o.maxFrameSize then frameSizeCeil
      else o.maxFrameSize
    streamEventBuffer := if o.streamEventBuffer = 0 then 8 else o.streamEventBuffer
    staticConnWindowSize :=
      if o.staticConnWindowSize = 0 then 0
      else if o.staticConnWindowSize < 65535 then 65535
      else if 2 ^ 31 - 1 < o.staticConnWindowSize then 2 ^ 31 - 1
      else o.staticConnWindowSize }

def initialConnRecvTarget (o : Options) : ℕ :=
  if o.autoTuneRecvWindow then 65535
  else if 65535 < o.staticConnWindowSize then o.staticConnWindowSize
  else 65535

/-! ## The tuner -/

def maxAutoRecvWindow : ℕ := 64 * 2 ^ 20

def minProbeBytes : ℕ := 16 * 2 ^ 10

def maxProbeBytes : ℕ := 8 * 2 ^ 20

/-- `recvWindowCeiling`. -/
def recvWindowCeiling (o : Options) (floor : ℕ) : ℕ :=
  let budget := (o.streamEventBuffer * o.maxFrameSize) % 2 ^ 64
  let ceiling :=
    if o.maxRecvWindow = 0 then if maxAutoRecvWindow < budget then maxAutoRecvWindow else budget
    else o.maxRecvWindow
  let ceiling := if maxAutoRecvWindow < ceiling then maxAutoRecvWindow else ceiling
  if ceiling < floor then floor else ceiling

/-- `recvWindowTuner`. -/
structure Tuner where
  ceiling : ℕ
  sampling : Bool := false
  sampleBytes : ℕ := 0
  probeBytes : ℕ := 0
  probeThreshold : ℕ := minProbeBytes

def newRecvWindowTuner (o : Options) (floor : ℕ) : Option Tuner :=
  if o.autoTuneRecvWindow then some { ceiling := recvWindowCeiling o floor } else none

/-- Whether the caller should now write a PING. -/
def Tuner.onData (t : Tuner) (n : ℕ) : Tuner × Bool :=
  if t.sampling then ({ t with sampleBytes := (t.sampleBytes + n) % 2 ^ 64 }, false)
  else
    let probeBytes := (t.probeBytes + n) % 2 ^ 64
    if probeBytes < t.probeThreshold then ({ t with probeBytes := probeBytes }, false)
    else ({ t with sampling := true, sampleBytes := 0, probeBytes := 0 }, true)

def Tuner.probeFailed (t : Tuner) : Tuner := { t with sampling := false, sampleBytes := 0 }

/-- `raise`: the target, and whether it moved. -/
def Tuner.raise (t : Tuner) (target want : ℕ) : ℕ × Bool :=
  let want := if t.ceiling < want then t.ceiling else want
  if want ≤ target then (target, false) else (want, true)

/-- `onAck`: the tuner and the two targets. -/
def Tuner.onAck (t : Tuner) (connTarget streamTarget : ℕ) : Tuner × ℕ × ℕ :=
  if t.sampling then
    let want := (t.sampleBytes * 2) % 2 ^ 64
    let conn := t.raise connTarget want
    let stream := t.raise streamTarget want
    let probeThreshold :=
      if conn.2 ∨ stream.2 then minProbeBytes
      else if maxProbeBytes < t.probeThreshold * 2 then maxProbeBytes
      else t.probeThreshold * 2
    ({ t with sampling := false, probeThreshold := probeThreshold }, conn.1, stream.1)
  else (t, connTarget, streamTarget)

/-! ## Windows -/

def recvWindowRefundThreshold : ℕ := 32768

def streamRefundThreshold (window : ℕ) : ℕ :=
  let half := window / 2
  if half < recvWindowRefundThreshold then if half = 0 then 1 else half
  else recvWindowRefundThreshold

def refundIncrement (target : ℕ) (window : ℤ) (spent : ℕ) : ℕ :=
  if target = 0 then spent
  else
    let inc := int32 (int32 target - window)
    if 0 < inc then inc.toNat else 0

/-- A window and what is pending of its refund. -/
structure Meter where
  window : ℤ
  refundPending : ℕ := 0

/-- Once the threshold is reached, the window is restored to its target: the meter and
the increment, 0 when it is not time yet. -/
def Meter.refund (threshold target : ℕ) (m : Meter) : Meter × ℕ :=
  if threshold ≤ m.refundPending then
    let refund := refundIncrement target m.window m.refundPending
    ({ window := int32 (m.window + int32 refund), refundPending := 0 }, refund)
  else (m, 0)

/-- One frame against a window: the increment to advertise, or `none` when the peer
overran. -/
def Meter.debit (threshold target : ℕ) (m : Meter) (length : ℕ) : Meter × Option ℕ :=
  let window := int32 (m.window - int32 length)
  if window < 0 then ({ m with window := window }, none)
  else
    let pending := (m.refundPending + length) % 2 ^ 32
    let (m, refund) := Meter.refund threshold target { window := window, refundPending := pending }
    (m, some refund)

/-! ## The connection -/

/-- Where a stream is: not opened yet, registered, or evicted. -/
inductive Phase where
  | idle
  | live
  | closed
  deriving DecidableEq

structure Stream where
  phase : Phase
  remoteEnded : Bool
  recv : Meter

structure State where
  conn : Meter
  stream : ℕ → Stream
  connRecvTarget : ℕ
  streamRecvTarget : ℕ
  tuner : Option Tuner
  /-- The WINDOW_UPDATE frames written: a stream, or `none` for the connection, and the
  increment. -/
  updates : List (Option ℕ × ℕ)
  /-- The connection and stream errors raised. -/
  errors : List ErrCode
  /-- A connection error was. -/
  dead : Bool
  /-- The octets of DATA that arrived, on the connection and on each stream. -/
  connReceived : ℕ
  received : ℕ → ℕ

/-- DATA: whether it ends the stream, whether the checks after flow control refuse it (no
response HEADERS before it, a wrong Content-Length), and whether a PING it calls for can
be written. -/
inductive Op where
  | alloc (k : ℕ)
  | evict (k : ℕ)
  | endRemote (k : ℕ)
  | data (k length : ℕ) (endStream refused pingOk : Bool)
  | pingAck

namespace State

/-- `NewClientConn` on defaulted options. -/
def init (o : Options) : State where
  conn := { window := connInitialRecvWindow }
  stream _ := { phase := .idle, remoteEnded := false, recv := { window := int32 o.initialWindowSize } }
  connRecvTarget := initialConnRecvTarget o
  streamRecvTarget := o.initialWindowSize
  tuner := newRecvWindowTuner o o.initialWindowSize
  updates := []
  errors := []
  dead := false
  connReceived := 0
  received _ := 0

variable (s : State)

/-- Change one stream. -/
@[simps]
def modify (k : ℕ) (f : Stream → Stream) : State :=
  { s with stream := Function.update s.stream k (f (s.stream k)) }

@[simps]
def setConn (m : Meter) : State := { s with conn := m }

/-- Write a WINDOW_UPDATE, unless the increment is 0. -/
@[simps]
def writeWindowUpdate (scope : Option ℕ) (increment : ℕ) : State :=
  { s with updates := if increment = 0 then s.updates else (scope, increment) :: s.updates }

@[simps]
def raiseError (code : ErrCode) : State := { s with errors := code :: s.errors }

/-- A stream error: the stream is reset and evicted. -/
def streamError (k : ℕ) (code : ErrCode) : State :=
  (s.modify k fun t => { t with phase := .closed }).raiseError code

def connError (code : ErrCode) : State := { s.raiseError code with dead := true }

def debitConnRecv (length : ℕ) : State × Option ℕ :=
  let (conn, refund) := s.conn.debit recvWindowRefundThreshold s.connRecvTarget length
  (s.setConn conn, refund)

/-- `accountConnRecvOnly`; whether it failed. -/
def accountConnRecvOnly (length : ℕ) : State × Bool :=
  match s.debitConnRecv length with
  | (s, none) => (s, true)
  | (s, some refund) => (s.writeWindowUpdate none refund, false)

/-- The frame is fed to the tuner. -/
def tune (length : ℕ) (pingOk : Bool) : State :=
  match s.tuner with
  | none => s
  | some t =>
    let (t, ping) := t.onData length
    { s with tuner := some (if ping ∧ pingOk = false then t.probeFailed else t) }

/-- `onDataReceived`; `none` is success. -/
def onDataReceived (o : Options) (s : State) (k length : ℕ) (pingOk : Bool) :
    State × Option (Bool × ErrCode) :=
  match s.debitConnRecv length with
  | (s, none) => (s, some (true, ErrCode.flowControlError))
  | (s, some connRefund) =>
    let (recv, streamRefund) := (s.stream k).recv.debit
      (streamRefundThreshold o.initialWindowSize) s.streamRecvTarget length
    let s := s.modify k fun t => { t with recv := recv }
    match streamRefund with
    | none => (s.writeWindowUpdate none connRefund, some (false, ErrCode.flowControlError))
    | some streamRefund =>
      (((s.writeWindowUpdate (some k) streamRefund).writeWindowUpdate none connRefund).tune
        length pingOk, none)

/-- `OnData`, and what the reader does with the error it returns. -/
def onData (o : Options) (s : State) (k length : ℕ) (endStream refused pingOk : Bool) : State :=
  match (s.stream k).phase with
  | .idle => s.connError ErrCode.protocolError
  | .closed =>
    let (s, failed) := s.accountConnRecvOnly length
    if failed then s.connError ErrCode.flowControlError else s
  | .live =>
    if (s.stream k).remoteEnded then
      (s.accountConnRecvOnly length).1.streamError k ErrCode.streamClosed
    else
      match s.onDataReceived o k length pingOk with
      | (s, some (true, code)) => s.connError code
      | (s, some (false, code)) => s.streamError k code
      | (s, none) =>
        if refused then s.streamError k ErrCode.protocolError
        else s.modify k fun t => { t with remoteEnded := t.remoteEnded || endStream }

/-- A DATA frame comes in. -/
@[simps]
def arrive (k length : ℕ) : State :=
  { s with
    connReceived := s.connReceived + length
    received := Function.update s.received k (s.received k + length) }

/-- The tuner's PING is answered, or one that looks like it. -/
def pingAck : State :=
  match s.tuner with
  | none => s
  | some t =>
    let (t, conn, stream) := t.onAck s.connRecvTarget s.streamRecvTarget
    { s with tuner := some t, connRecvTarget := conn, streamRecvTarget := stream }

def step (o : Options) (s : State) : Op → Option State
  | .alloc k =>
    if (s.stream k).phase = .idle then some (s.modify k fun t => { t with phase := .live }) else none
  | .evict k =>
    if (s.stream k).phase = .live then some (s.modify k fun t => { t with phase := .closed }) else none
  | .endRemote k => some (s.modify k fun t => { t with remoteEnded := true })
  | .data k length endStream refused pingOk =>
    if s.dead then none else some ((s.arrive k length).onData o k length endStream refused pingOk)
  | .pingAck => some s.pingAck

end State

/-- The receive side of a connection. -/
def system (o : Options) : System State Op := ⟨State.init o.defaulted, State.step o.defaulted⟩

namespace State

/-- The increments advertised so far, for a stream or the connection. -/
def advertised (s : State) (scope : Option ℕ) : ℕ :=
  ((s.updates.filter fun u => u.1 = scope).map Prod.snd).sum

/-- The windows are what the peer may still send, and never run dry. -/
structure Exact (o : Options) (s : State) : Prop where
  noError : ErrCode.flowControlError ∉ s.errors
  conn : s.conn.window = connInitialRecvWindow + s.advertised none - s.connReceived
  connRange : 0 < s.conn.window ∧ s.conn.window ≤ maxFlowWindow
  stream : ∀ k, (s.stream k).phase = .live → (s.stream k).recv.window =
    o.initialWindowSize + s.advertised (some k) - s.received k
  streamRange : ∀ k, (s.stream k).phase = .live →
    0 < (s.stream k).recv.window ∧ (s.stream k).recv.window ≤ maxFlowWindow
  increments : ∀ u ∈ s.updates, 1 ≤ u.2 ∧ (u.2 : ℤ) ≤ maxFlowWindow

/-- A frame within the frame limit, on a stream that was opened, and within what was
advertised for the connection and for the stream while it is registered. -/
def Respects (o : Options) (s : State) : Op → Prop
  | .data k length _ _ _ =>
    length ≤ o.maxFrameSize ∧ (s.stream k).phase ≠ .idle ∧
      s.connReceived + length ≤ 65535 + s.advertised none ∧
      ((s.stream k).phase = .live →
        s.received k + length ≤ o.initialWindowSize + s.advertised (some k))
  | _ => True

instance (o : Options) (s : State) : ∀ op, Decidable (s.Respects o op)
  | .data k length _ _ _ => inferInstanceAs (Decidable (length ≤ o.maxFrameSize ∧
      (s.stream k).phase ≠ .idle ∧ s.connReceived + length ≤ 65535 + s.advertised none ∧
      ((s.stream k).phase = .live →
        s.received k + length ≤ o.initialWindowSize + s.advertised (some k))))
  | .alloc _ | .evict _ | .endRemote _ | .pingAck => isTrue trivial

end State

/-! ## One window -/

/-- A window counts what was advertised and received, and stands at the level of its last
refund less what is pending. -/
structure Meter.Metered (m : Meter) (initial threshold target advertised received : ℕ) : Prop where
  exact : m.window = initial + advertised - received
  pending : m.refundPending < threshold
  floor : (initial : ℤ) ≤ m.window + m.refundPending
  level : m.window + m.refundPending ≤ target

variable {m : Meter} {initial threshold target advertised received length : ℕ}

section Metered

variable (h : m.Metered initial threshold target advertised received)

include h

theorem Meter.Metered.pos (hthreshold : threshold ≤ initial) : 0 < m.window := by
  have hpending := h.pending
  have hfloor := h.floor
  omega

theorem Meter.Metered.le (htarget : (target : ℤ) ≤ maxFlowWindow) : m.window ≤ maxFlowWindow := by
  have hlevel := h.level
  omega

theorem Meter.Metered.raise {target' : ℕ} (ht : target ≤ target') :
    m.Metered initial threshold target' advertised received :=
  ⟨h.exact, h.pending, h.floor, by have := h.level; omega⟩

end Metered

/-- A refund puts the window at its target. -/
theorem refundIncrement_eq {window : ℤ} {spent : ℕ} (hlo : 0 ≤ window) (hlt : window < target)
    (htarget : (target : ℤ) ≤ maxFlowWindow) :
    (refundIncrement target window spent : ℤ) = target - window := by
  have hne : target ≠ 0 := by omega
  have htarget32 : int32 target = target := int32_natCast htarget
  have hinc : int32 (target - window) = target - window := by
    refine int32_eq ?_ ?_ <;> omega
  have hpos : 0 < (target : ℤ) - window := by omega
  simp only [refundIncrement, hne, if_false, htarget32, hinc, hpos, if_true]
  exact Int.toNat_of_nonneg (Int.le_of_lt hpos)

theorem Meter.refund_metered (hpos : 0 < threshold) (hlo : 0 ≤ m.window)
    (htarget : (target : ℤ) ≤ maxFlowWindow) (hinitial : initial ≤ target)
    (hexact : m.window = initial + advertised - received)
    (hfloor : (initial : ℤ) ≤ m.window + m.refundPending)
    (hlevel : m.window + m.refundPending ≤ target) :
    (m.refund threshold target).1.Metered initial threshold target
        (advertised + (m.refund threshold target).2) received ∧
      ((m.refund threshold target).2 : ℤ) ≤ maxFlowWindow := by
  unfold Meter.refund
  split
  · have hrefund := @refundIncrement_eq target m.window m.refundPending hlo (by omega) htarget
    simp only
    generalize refundIncrement target m.window m.refundPending = refund at hrefund
    have hrefund32 : int32 refund = refund := int32_natCast (by omega)
    have hrestored : int32 (m.window + refund) = target := by
      rw [int32_eq] <;> omega
    rw [hrefund32, hrestored]
    refine ⟨⟨?_, hpos, ?_, ?_⟩, by omega⟩
    · simp only
      omega
    · simp only
      omega
    · simp
  · refine ⟨⟨?_, ?_, hfloor, hlevel⟩, ?_⟩
    · simpa using hexact
    · simp only
      omega
    · simp [maxFlowWindow]

/-- A frame within the window is debited, and once the threshold is reached the window
is back at its target. -/
theorem Meter.Metered.debit (h : m.Metered initial threshold target advertised received)
    (hpos : 0 < threshold) (hthreshold : threshold ≤ initial) (hinitial : initial ≤ target)
    (htarget : (target : ℤ) ≤ maxFlowWindow) (hlength : length < 2 ^ 24)
    (hresp : received + length ≤ initial + advertised) :
    ∃ m' refund, m.debit threshold target length = (m', some refund) ∧
      m'.Metered initial threshold target (advertised + refund) (received + length) ∧
      (refund : ℤ) ≤ maxFlowWindow := by
  have hexact := h.exact
  have hlevel := h.level
  have hfloor := h.floor
  have hlo : 0 ≤ m.window - length := by omega
  have hlen32 : int32 length = length := int32_natCast (by simp only [maxFlowWindow]; omega)
  have hwindow : int32 (m.window - length) = m.window - length := int32_eq (by omega) (by omega)
  have hmod : (m.refundPending + length) % 2 ^ 32 = m.refundPending + length := by
    simp only [maxFlowWindow] at htarget
    exact Nat.mod_eq_of_lt (by omega)
  simp only [Meter.debit, hlen32, hwindow, hmod, not_lt.mpr hlo, if_false]
  refine ⟨_, _, rfl, ?_⟩
  apply Meter.refund_metered hpos hlo htarget hinitial <;> simp only <;> omega

/-! ## Options and targets -/

theorem streamRefundThreshold_bounds {window : ℕ} (h : 0 < window) :
    0 < streamRefundThreshold window ∧ streamRefundThreshold window ≤ window := by
  simp only [streamRefundThreshold, recvWindowRefundThreshold]
  grind

theorem initialConnRecvTarget_bounds (o : Options) :
    65535 ≤ initialConnRecvTarget o.defaulted ∧
      (initialConnRecvTarget o.defaulted : ℤ) ≤ maxFlowWindow := by
  simp only [initialConnRecvTarget, Options.defaulted, maxFlowWindow]
  grind

theorem defaulted_maxFrameSize_lt (o : Options) : o.defaulted.maxFrameSize < 2 ^ 24 := by
  simp only [Options.defaulted, frameSizeFloor, frameSizeCeil]
  grind

theorem defaulted_initialWindowSize_pos (o : Options) : 0 < o.defaulted.initialWindowSize := by
  simp only [Options.defaulted]
  split_ifs <;> omega

/-- A target only rises, and not above the ceiling. -/
theorem Tuner.raise_bounds (t : Tuner) (target want : ℕ)
    (hceiling : (t.ceiling : ℤ) ≤ maxFlowWindow) (htarget : (target : ℤ) ≤ maxFlowWindow) :
    target ≤ (t.raise target want).1 ∧ ((t.raise target want).1 : ℤ) ≤ maxFlowWindow := by
  simp only [Tuner.raise]
  split_ifs <;> constructor <;> simp only <;> omega

theorem Tuner.onAck_bounds (t : Tuner) (connTarget streamTarget : ℕ)
    (hceiling : (t.ceiling : ℤ) ≤ maxFlowWindow) (hconn : (connTarget : ℤ) ≤ maxFlowWindow)
    (hstream : (streamTarget : ℤ) ≤ maxFlowWindow) :
    (t.onAck connTarget streamTarget).1.ceiling = t.ceiling ∧
      (connTarget ≤ (t.onAck connTarget streamTarget).2.1 ∧
        ((t.onAck connTarget streamTarget).2.1 : ℤ) ≤ maxFlowWindow) ∧
      streamTarget ≤ (t.onAck connTarget streamTarget).2.2 ∧
        ((t.onAck connTarget streamTarget).2.2 : ℤ) ≤ maxFlowWindow := by
  unfold Tuner.onAck
  split
  · exact ⟨rfl, t.raise_bounds _ _ hceiling hconn, t.raise_bounds _ _ hceiling hstream⟩
  · exact ⟨rfl, ⟨le_rfl, hconn⟩, le_rfl, hstream⟩

theorem Tuner.onData_ceiling (t : Tuner) (n : ℕ) : (t.onData n).1.ceiling = t.ceiling := by
  unfold Tuner.onData
  simp only
  split_ifs <;> rfl

/-! ## Runs -/

namespace State

variable {o : Options} {s s' : State} {k : ℕ}

/-- The connection's window is on the meter. -/
abbrev ConnMetered (s : State) (received : ℕ) : Prop :=
  s.conn.Metered 65535 recvWindowRefundThreshold s.connRecvTarget (s.advertised none) received

/-- A stream's window is. -/
abbrev StreamMetered (o : Options) (s : State) (k received : ℕ) : Prop :=
  (s.stream k).recv.Metered o.initialWindowSize (streamRefundThreshold o.initialWindowSize)
    s.streamRecvTarget (s.advertised (some k)) received

/-- What does not depend on a frame in hand. -/
structure Base (o : Options) (s : State) : Prop where
  connTarget : 65535 ≤ s.connRecvTarget ∧ (s.connRecvTarget : ℤ) ≤ maxFlowWindow
  streamTarget : o.initialWindowSize ≤ s.streamRecvTarget ∧
    (s.streamRecvTarget : ℤ) ≤ maxFlowWindow
  ceiling : ∀ t, s.tuner = some t → (t.ceiling : ℤ) ≤ maxFlowWindow
  noError : ErrCode.flowControlError ∉ s.errors
  increments : ∀ u ∈ s.updates, 1 ≤ u.2 ∧ (u.2 : ℤ) ≤ maxFlowWindow

structure Inv (o : Options) (s : State) : Prop where
  base : s.Base o
  conn : s.ConnMetered s.connReceived
  live : ∀ k, (s.stream k).phase = .live → s.StreamMetered o k (s.received k)
  idle : ∀ k, (s.stream k).phase = .idle →
    (s.stream k).recv = { window := int32 o.initialWindowSize } ∧ s.advertised (some k) = 0 ∧
      s.received k = 0

theorem Inv.exact (h : s.Inv o) (hpos : 0 < o.initialWindowSize) : s.Exact o where
  noError := h.base.noError
  conn := h.conn.exact
  connRange := ⟨h.conn.pos (by simp [recvWindowRefundThreshold]), h.conn.le h.base.connTarget.2⟩
  stream k hk := (h.live k hk).exact
  streamRange k hk := ⟨(h.live k hk).pos (streamRefundThreshold_bounds hpos).2,
    (h.live k hk).le h.base.streamTarget.2⟩
  increments := h.base.increments

theorem advertised_writeWindowUpdate (scope scope' : Option ℕ) (increment : ℕ) :
    (s.writeWindowUpdate scope increment).advertised scope' =
      s.advertised scope' + if scope = scope' then increment else 0 := by
  by_cases h0 : increment = 0
  · simp [advertised, h0]
  · by_cases hscope : scope = scope'
    · simp [advertised, h0, hscope, Nat.add_comm]
    · simp [advertised, h0, hscope]

theorem Base.writeWindowUpdate (h : s.Base o) (scope : Option ℕ) {increment : ℕ}
    (hle : (increment : ℤ) ≤ maxFlowWindow) : (s.writeWindowUpdate scope increment).Base o := by
  refine { h with increments := ?_ }
  intro u hu
  by_cases h0 : increment = 0
  · exact h.increments u (by simpa [h0] using hu)
  · simp only [writeWindowUpdate_updates, h0, if_false, List.mem_cons] at hu
    rcases hu with rfl | hu
    · exact ⟨Nat.pos_of_ne_zero h0, hle⟩
    · exact h.increments u hu

theorem Base.raiseError (h : s.Base o) {code : ErrCode} (hcode : ErrCode.flowControlError ≠ code) :
    (s.raiseError code).Base o :=
  { h with noError := by simpa using ⟨hcode, h.noError⟩ }

theorem Base.tune (h : s.Base o) (length : ℕ) (pingOk : Bool) : (s.tune length pingOk).Base o := by
  unfold State.tune
  split
  · exact h
  rename_i t ht
  refine { h with ceiling := ?_ }
  intro t' heq
  simp only [Option.some.injEq] at heq
  rw [← heq]
  have hceiling := h.ceiling t ht
  rw [← t.onData_ceiling length] at hceiling
  split
  · exact hceiling
  · exact hceiling

/-- The tuner changes nothing else. -/
theorem tune_eq (length : ℕ) (pingOk : Bool) :
    s.tune length pingOk = { s with tuner := (s.tune length pingOk).tuner } := by
  unfold State.tune
  split <;> rfl

theorem Inv.tune (h : s.Inv o) (length : ℕ) (pingOk : Bool) : (s.tune length pingOk).Inv o := by
  have hbase := h.base.tune length pingOk
  rw [tune_eq] at hbase ⊢
  exact { h with base := hbase }

/-- The connection's window is debited by a frame within it. -/
theorem debitConnRecv_spec {received length : ℕ} (h : s.ConnMetered received)
    (hb : s.Base o) (hlength : length < 2 ^ 24)
    (hresp : received + length ≤ 65535 + s.advertised none) :
    ∃ m refund, s.debitConnRecv length = (s.setConn m, some refund) ∧
      m.Metered 65535 recvWindowRefundThreshold s.connRecvTarget (s.advertised none + refund)
        (received + length) ∧
      (refund : ℤ) ≤ maxFlowWindow := by
  obtain ⟨m, refund, heq, hm, hle⟩ := h.debit (by simp [recvWindowRefundThreshold])
    (by simp [recvWindowRefundThreshold]) hb.connTarget.1 hb.connTarget.2 hlength hresp
  exact ⟨m, refund, by simp only [debitConnRecv, heq], hm, hle⟩

/-- A step that changes one stream has that one to answer for. -/
theorem Inv.local (h : s.Inv o) (k : ℕ) (hbase : s'.Base o)
    (hconn : s'.ConnMetered s'.connReceived)
    (hother : ∀ j ≠ k, s'.stream j = s.stream j ∧ s'.advertised (some j) = s.advertised (some j) ∧
      s'.received j = s.received j)
    (htarget : s'.streamRecvTarget = s.streamRecvTarget)
    (hlive : (s'.stream k).phase = .live → s'.StreamMetered o k (s'.received k))
    (hidle : (s'.stream k).phase = .idle →
      (s'.stream k).recv = { window := int32 o.initialWindowSize } ∧ s'.advertised (some k) = 0 ∧
        s'.received k = 0) : s'.Inv o := by
  refine ⟨hbase, hconn, ?_, ?_⟩
  all_goals
    intro j hj
    by_cases hjk : j = k
  · subst hjk
    exact hlive hj
  · obtain ⟨hstream, hadv, hrecv⟩ := hother j hjk
    rw [StreamMetered, hstream, hadv, hrecv, htarget]
    exact h.live j (hstream ▸ hj)
  · subst hjk
    exact hidle hj
  · obtain ⟨hstream, hadv, hrecv⟩ := hother j hjk
    rw [hstream, hadv, hrecv]
    exact h.idle j (hstream ▸ hj)

variable {length : ℕ}

/-- A frame whose octets count for the connection only: its stream is closed, or closed
now because the peer had ended it. -/
theorem Inv.accountOnly (h : s.Inv o) (hlength : length < 2 ^ 24)
    (hresp : s.connReceived + length ≤ 65535 + s.advertised none) {f : Stream → Stream}
    (hf : (f (s.stream k)).phase = .closed) :
    (((s.arrive k length).accountConnRecvOnly length).1.modify k f).Inv o ∧
      ((s.arrive k length).accountConnRecvOnly length).2 = false := by
  have hb : (s.arrive k length).Base o := { h.base with }
  obtain ⟨m, refund, heq, hm, hle⟩ := debitConnRecv_spec (s := s.arrive k length) h.conn hb
    hlength hresp
  have hset : ((s.arrive k length).setConn m).Base o := { hb with }
  have hbase := hset.writeWindowUpdate none hle
  have hadv := fun scope => advertised_writeWindowUpdate (s := (s.arrive k length).setConn m) none
    scope refund
  simp only [accountConnRecvOnly, heq]
  refine ⟨h.local k { hbase with } ?_ ?_ rfl ?_ ?_, trivial⟩
  · change m.Metered _ _ _ ((((s.arrive k length).setConn m).writeWindowUpdate none refund).advertised
      none) _
    rw [hadv]
    exact hm
  · intro j hj
    refine ⟨by simp [hj], ?_, by simp [hj]⟩
    change (((s.arrive k length).setConn m).writeWindowUpdate none refund).advertised (some j) = _
    rw [hadv]
    rfl
  · intro hlive
    simp [hf] at hlive
  · intro hidle
    simp [hf] at hidle

/-- A frame on a stream that the peer has not ended. -/
theorem onDataReceived_spec (pingOk : Bool) (h : s.Inv o) (hpos : 0 < o.initialWindowSize)
    (hlength : length < 2 ^ 24) (hlive : (s.stream k).phase = .live)
    (hconn : s.connReceived + length ≤ 65535 + s.advertised none)
    (hstream : s.received k + length ≤ o.initialWindowSize + s.advertised (some k)) :
    ∃ s', (s.arrive k length).onDataReceived o k length pingOk = (s', none) ∧ s'.Inv o ∧
      (s'.stream k).phase = .live := by
  have hb : (s.arrive k length).Base o := { h.base with }
  have hthreshold := streamRefundThreshold_bounds hpos
  obtain ⟨m, connRefund, heq, hm, hle⟩ := debitConnRecv_spec (s := s.arrive k length) h.conn hb
    hlength hconn
  obtain ⟨m', streamRefund, heq', hm', hle'⟩ := (h.live k hlive).debit hthreshold.1 hthreshold.2
    h.base.streamTarget.1 h.base.streamTarget.2 hlength hstream
  have hmConn : m.Metered 65535 recvWindowRefundThreshold s.connRecvTarget
      (s.advertised none + connRefund) (s.connReceived + length) := hm
  -- both windows debited, the two WINDOW_UPDATEs still to be written
  generalize hmid : ((s.arrive k length).setConn m).modify k (fun t => { t with recv := m' }) = mid
  have hbmid : mid.Base o := by
    rw [← hmid]
    exact { hb with }
  have hresult : (s.arrive k length).onDataReceived o k length pingOk =
      (((mid.writeWindowUpdate (some k) streamRefund).writeWindowUpdate none connRefund).tune length
        pingOk, none) := by
    simp only [onDataReceived, heq, setConn_stream, setConn_streamRecvTarget, arrive_stream,
      arrive_streamRecvTarget, heq', hmid]
  have hbase := (hbmid.writeWindowUpdate (some k) hle').writeWindowUpdate none hle
  have hadv : ∀ scope, ((mid.writeWindowUpdate (some k) streamRefund).writeWindowUpdate none
      connRefund).advertised scope = s.advertised scope +
      (if some k = scope then streamRefund else 0) + if none = scope then connRefund else 0 := by
    intro scope
    rw [advertised_writeWindowUpdate, advertised_writeWindowUpdate, ← hmid]
    rfl
  refine ⟨_, hresult, Inv.tune ?_ length pingOk, ?_⟩
  · refine h.local k hbase ?_ ?_ ?_ ?_ ?_
    · unfold ConnMetered
      rw [hadv]
      simpa [← hmid] using hmConn
    · intro j hj
      rw [hadv]
      simp [← hmid, hj, hj.symm]
    · simp [← hmid]
    · intro _
      unfold StreamMetered
      rw [hadv]
      simpa [← hmid] using hm'
    · simp [← hmid, hlive]
  · rw [tune_eq]
    simp [← hmid, hlive]

/-- Flags of one stream that is registered, or leaves the registry. -/
theorem Inv.flags (h : s.Inv o) {f : Stream → Stream}
    (hrecv : (f (s.stream k)).recv = (s.stream k).recv)
    (hphase : (f (s.stream k)).phase = (s.stream k).phase ∨ (f (s.stream k)).phase = .closed) :
    (s.modify k f).Inv o := by
  have hphase' : (f (s.stream k)).phase ≠ .closed → (f (s.stream k)).phase = (s.stream k).phase :=
    hphase.resolve_right
  refine h.local k { h.base with } h.conn ?_ rfl ?_ ?_
  · intro j hj
    exact ⟨by simp [hj], rfl, rfl⟩
  · intro hk
    simp only [modify_stream, Function.update_self] at hk
    rw [hphase' (by simp [hk])] at hk
    simpa [StreamMetered, hrecv, advertised] using h.live k hk
  · intro hk
    simp only [modify_stream, Function.update_self] at hk
    rw [hphase' (by simp [hk])] at hk
    simpa [hrecv, advertised] using h.idle k hk

theorem Inv.streamError (h : s.Inv o) (k : ℕ) {code : ErrCode}
    (hcode : ErrCode.flowControlError ≠ code) : (s.streamError k code).Inv o := by
  have hclosed : (s.modify k fun t => { t with phase := .closed }).Inv o := h.flags rfl (.inr rfl)
  exact { hclosed with base := hclosed.base.raiseError hcode }

theorem Inv.onData (h : s.Inv o) (hpos : 0 < o.initialWindowSize) (hframe : o.maxFrameSize < 2 ^ 24)
    {endStream refused pingOk : Bool}
    (hresp : s.Respects o (.data k length endStream refused pingOk)) :
    ((s.arrive k length).onData o k length endStream refused pingOk).Inv o := by
  obtain ⟨hle, hopen, hconn, hstream⟩ := hresp
  have hlength : length < 2 ^ 24 := Nat.lt_of_le_of_lt hle hframe
  unfold State.onData
  split
  · rename_i hidle
    exact absurd hidle hopen
  · rename_i hclosed
    obtain ⟨hinv, hok⟩ := h.accountOnly (f := id) hlength hconn hclosed
    have hid : ((s.arrive k length).accountConnRecvOnly length).1.modify k id =
        ((s.arrive k length).accountConnRecvOnly length).1 := by
      simp [modify]
    rw [hid] at hinv
    simpa [hok] using hinv
  · rename_i hlive
    split
    · -- the peer had ended it
      obtain ⟨hinv, -⟩ := h.accountOnly (f := fun t => { t with phase := .closed }) hlength
        hconn rfl
      exact { hinv with base := hinv.base.raiseError (by decide) }
    · obtain ⟨s', heq, hinv, -⟩ := onDataReceived_spec pingOk h hpos hlength hlive hconn
        (hstream hlive)
      simp only [heq]
      split
      · exact hinv.streamError k (by decide)
      · exact hinv.flags rfl (.inl rfl)

theorem Inv.pingAck (h : s.Inv o) : s.pingAck.Inv o := by
  unfold State.pingAck
  split
  · exact h
  rename_i t ht
  obtain ⟨hceiling, hconn, hstream⟩ := t.onAck_bounds s.connRecvTarget s.streamRecvTarget
    (h.base.ceiling t ht) h.base.connTarget.2 h.base.streamTarget.2
  refine ⟨⟨?_, ?_, ?_, h.base.noError, h.base.increments⟩, h.conn.raise hconn.1,
    fun k hk => (h.live k hk).raise hstream.1, h.idle⟩
  · exact ⟨Nat.le_trans h.base.connTarget.1 hconn.1, hconn.2⟩
  · exact ⟨Nat.le_trans h.base.streamTarget.1 hstream.1, hstream.2⟩
  · intro t' heq
    obtain rfl := Option.some.inj heq
    rw [hceiling]
    exact h.base.ceiling t ht

theorem Inv.alloc (h : s.Inv o) (hpos : 0 < o.initialWindowSize)
    (hmax : (o.initialWindowSize : ℤ) ≤ maxFlowWindow) (hidle : (s.stream k).phase = .idle) :
    (s.modify k fun t => { t with phase := .live }).Inv o := by
  obtain ⟨hrecv, hadv, hreceived⟩ := h.idle k hidle
  refine h.local k { h.base with } h.conn ?_ rfl ?_ (by simp)
  · intro j hj
    exact ⟨by simp [hj], rfl, rfl⟩
  intro _
  have hadv' : (s.modify k fun t => { t with phase := .live }).advertised (some k) = 0 := hadv
  have htarget := h.base.streamTarget.1
  unfold StreamMetered
  simp only [modify_stream, Function.update_self, hrecv, modify_received, hreceived,
    int32_natCast hmax, modify_streamRecvTarget]
  refine ⟨?_, (streamRefundThreshold_bounds hpos).1, ?_, ?_⟩ <;> simp only <;> omega

theorem Inv.step {op : Op} (h : s.Inv o) (hpos : 0 < o.initialWindowSize)
    (hmax : (o.initialWindowSize : ℤ) ≤ maxFlowWindow) (hframe : o.maxFrameSize < 2 ^ 24)
    (hresp : s.Respects o op) (hs : s.step o op = some s') : s'.Inv o := by
  cases op with
  | alloc k =>
    simp only [State.step, Transition.guarded] at hs
    obtain ⟨hidle, rfl⟩ := hs
    exact h.alloc hpos hmax hidle
  | evict k =>
    simp only [State.step, Transition.guarded] at hs
    obtain ⟨-, rfl⟩ := hs
    exact h.flags rfl (.inr rfl)
  | endRemote k =>
    obtain rfl := Option.some.inj hs
    exact h.flags rfl (.inl rfl)
  | data k length endStream refused pingOk =>
    simp only [State.step, Option.ite_none_left_eq_some, Option.some.injEq] at hs
    obtain ⟨-, rfl⟩ := hs
    exact h.onData hpos hframe hresp
  | pingAck =>
    obtain rfl := Option.some.inj hs
    exact h.pingAck

theorem inv_init (o : Options) (hmax : (o.defaulted.initialWindowSize : ℤ) ≤ maxFlowWindow) :
    (init o.defaulted).Inv o.defaulted := by
  have htarget := initialConnRecvTarget_bounds o
  refine ⟨⟨htarget, ⟨le_rfl, hmax⟩, ?_, by simp [init], by simp [init]⟩, ?_, ?_, ?_⟩
  · intro t ht
    simp only [init, newRecvWindowTuner, Transition.guarded] at ht
    obtain ⟨-, rfl⟩ := ht
    have hauto : (maxAutoRecvWindow : ℤ) ≤ maxFlowWindow := by
      simp [maxAutoRecvWindow, maxFlowWindow]
    simp only [recvWindowCeiling]
    split_ifs <;> omega
  · refine ⟨rfl, by simp [init, recvWindowRefundThreshold], by simp [init, connInitialRecvWindow], ?_⟩
    simp only [init, connInitialRecvWindow]
    omega
  · intro k hk
    cases hk
  · intro k _
    exact ⟨rfl, rfl, rfl⟩

end State

/-- As long as the peer keeps to the windows it was told, inbound flow control is exact
and leaves it room to send after every frame. -/
theorem exact_of_respects (o : Options) (hmax : o.initialWindowSize ≤ 2 ^ 31 - 1) {s : State}
    (h : (system o).ReachableBy (State.Respects o.defaulted) s) : s.Exact o.defaulted := by
  have hpos := defaulted_initialWindowSize_pos o
  have hmax' : (o.defaulted.initialWindowSize : ℤ) ≤ maxFlowWindow := by
    simp only [Options.defaulted, maxFlowWindow]
    split <;> omega
  have hinv : s.Inv o.defaulted := h.invariant (State.inv_init o hmax')
    fun _ _ _ hs hresp hstep => hs.step hpos hmax' (defaulted_maxFrameSize_lt o) hresp hstep
  exact hinv.exact hpos

/-- A connection window above the initial one, not tuned. -/
def staticOptions : Options := ⟨70000, 0, 0, 100000, false, 0⟩

/-- A download that crosses both thresholds, and DATA after its end. -/
def downloadRun : List Op :=
  [.alloc 1, .data 1 16384 false false true, .data 1 16384 true false true,
    .data 1 100 false false true, .data 1 100 false false true]

theorem exact_of_respects_downloadRun :
    ∃ s, (system staticOptions).run (system staticOptions).init downloadRun = some s ∧
      s.Exact staticOptions.defaulted ∧ s.updates = [(none, 67233), (some 1, 32768)] ∧
      s.conn.window = 99800 ∧ s.errors = [ErrCode.streamClosed] := by
  have hmeets : (system staticOptions).RunMeets (State.Respects staticOptions.defaulted)
      (system staticOptions).init downloadRun := by
    decide +kernel
  apply System.exists_run_and downloadRun
  · intro s hs
    exact exact_of_respects _ (by decide) (System.reachableBy_run .init hmeets hs)
  · decide +kernel

end Conn.RecvFlow
