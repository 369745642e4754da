import PoseidonHttp.Quic.Types

/-!
# Packets sent, loss detection and congestion control

The packets a connection has sent and not seen acknowledged, the frames that wait to be sent
again, and the congestion window: `rtt.go`, `cc.go`, `loss.go`, `pto.go`, `retransbuf.go`, the
accounting of `sealPacket` and `flushRetransmits` in `conn_seal.go`, `onAckRange` and
`discardSpace` in `conn.go`, and what a Retry and the reset of a stream do to them.

A packet is what is recorded of it: its send time, its size on the wire and the one frame it
would have sent again. A payload is a buffer, named by its address, so that sharing one can be
told from copying it. The packets of a space are a list in the order in which a range loop
meets them; `reorder` says that the order is any order. Time is in nanoseconds; an instant that
may be the zero time is an option. Sums of bytes in flight stay below the word size.
-/

namespace Quic

open Header (Bytes)
open Function (update)

/-- The packet-number spaces. -/
inductive Space where
  | initial
  | handshake
  | app
  deriving DecidableEq, Repr

/-- The spaces in the order of the loops over them. -/
def spaces : List Space := [.initial, .handshake, .app]

def maxDatagramSize : ℕ := 1200

def kInitialWindow : ℕ := 12000

def kMinimumWindow : ℕ := 2 * maxDatagramSize

def kPersistentCongestionThreshold : ℤ := 3

def kPacketThreshold : ℕ := 3

def kGranularity : ℤ := 1000000

def kInitialRtt : ℤ := 333 * 1000000

def maxPTOBackoff : ℕ := 8

def retransFreeMax : ℕ := 64

inductive RetransKind where
  | crypto
  | stream
  | reset
  | stopSending
  | retire
  | streamsBlocked
  deriving DecidableEq, Repr

/-- What it takes to send a lost frame again. `data` is the buffer that holds the payload, if
it has one. -/
structure RetransFrame where
  kind : RetransKind
  streamID : ℕ
  offset : ℕ
  errCode : ℕ
  data : Option ℕ
  fin : Bool
  deriving DecidableEq, Repr

structure SentPacket where
  timeSent : ℤ
  size : ℕ
  frame : Option RetransFrame
  ackEliciting : Bool
  deriving DecidableEq, Repr

/-- A packet under its number. -/
abbrev Entry := ℕ × SentPacket

structure SentSpace where
  packets : List Entry
  largestAcked : Option ℕ
  ackedElicit : List ℤ
  deriving DecidableEq, Repr

def SentSpace.empty : SentSpace := ⟨[], none, []⟩

/-- A payload buffer: its capacity and what was last written to it. -/
structure Buffer where
  cap : ℕ
  bytes : Bytes
  deriving DecidableEq, Repr

/-! ## Round-trip times -/

structure RttStats where
  latestRTT : ℤ
  minRTT : ℤ
  smoothedRTT : ℤ
  rttvar : ℤ
  haveSample : Bool
  resetMin : Bool
  deriving DecidableEq, Repr

namespace RttStats

def lossDelay (r : RttStats) : ℤ :=
  max (((max r.smoothedRTT r.latestRTT) * 9).tdiv 8) kGranularity

def update (r : RttStats) (latest ackDelay : ℤ) : RttStats :=
  if r.haveSample = false then
    { r with
      latestRTT := latest, minRTT := latest, smoothedRTT := latest, rttvar := latest.tdiv 2
      haveSample := true }
  else
    let minRTT := if r.resetMin ∨ latest < r.minRTT then latest else r.minRTT
    let adjusted := if latest ≥ minRTT + ackDelay then latest - ackDelay else latest
    { r with
      latestRTT := latest
      minRTT := minRTT
      resetMin := false
      rttvar := (3 * r.rttvar + |r.smoothedRTT - adjusted|).tdiv 4
      smoothedRTT := (7 * r.smoothedRTT + adjusted).tdiv 8 }

end RttStats

/-- The state of loss recovery. `bbr` says that the window is set by the other controller.
Three fields only record: `saturated` that the in-flight total was cut at zero, `sealedLog` and
`ackedLog` the frames that were in a sealed and in an acknowledged packet, with their
payload. -/
structure Recovery where
  sendPN : Space → ℕ
  sent : Space → SentSpace
  retransQueue : Space → List RetransFrame
  retransFree : List ℕ
  heap : List Buffer
  bytesInFlight : ℕ
  saturated : Bool
  sealedLog : List (RetransFrame × Bytes)
  ackedLog : List (RetransFrame × Bytes)
  bbr : Bool
  cwnd : ℕ
  ssthresh : ℕ
  ccBytesAcked : ℕ
  recoveryStart : Option ℤ
  firstRTTSample : Option ℤ
  rtt : RttStats
  ptoCount : ℕ
  probePending : Bool
  handshakeProbe : Bool
  ptoExempt : Bool
  handshakeComplete : Bool
  handshakeConfirmed : Bool
  peerMaxAckDelay : ℤ

namespace Recovery

/-- A connection as `NewConn` makes it. -/
def new (bbr : Bool) : Recovery where
  sendPN := fun _ => 0
  sent := fun _ => .empty
  retransQueue := fun _ => []
  retransFree := []
  heap := []
  bytesInFlight := 0
  saturated := false
  sealedLog := []
  ackedLog := []
  bbr := bbr
  cwnd := kInitialWindow
  ssthresh := u64 - 1
  ccBytesAcked := 0
  recoveryStart := none
  firstRTTSample := none
  rtt := ⟨0, 0, 0, 0, false, false⟩
  ptoCount := 0
  probePending := false
  handshakeProbe := false
  ptoExempt := false
  handshakeComplete := false
  handshakeConfirmed := false
  peerMaxAckDelay := 0

variable (r : Recovery)

/-- Replace the packets of a space. -/
def setPackets (sp : Space) (packets : List Entry) : Recovery :=
  { r with sent := update r.sent sp { r.sent sp with packets := packets } }

/-- Replace the retransmit queue of a space. -/
def setQueue (sp : Space) (queue : List RetransFrame) : Recovery :=
  { r with retransQueue := update r.retransQueue sp queue }

/-! ## Congestion control -/

def removeInFlight (size : ℕ) : Recovery :=
  if r.bytesInFlight ≥ size then { r with bytesInFlight := r.bytesInFlight - size }
  else { r with bytesInFlight := 0, saturated := true }

/-- An instant after one that may be the zero time. -/
def after (t : ℤ) : Option ℤ → Bool
  | none => true
  | some start => decide (start < t)

/-- `onPacketAcked`. The other controller only advances its sampler here. -/
def onPacketAcked (p : SentPacket) (cwndLimited : Bool) : Recovery :=
  let r := r.removeInFlight p.size
  if r.cwnd = 0 then r
  else if r.bbr then r
  else if after p.timeSent r.recoveryStart = false then r
  else if cwndLimited = false then r
  else if r.cwnd < r.ssthresh then { r with cwnd := r.cwnd + p.size }
  else
    let acked := r.ccBytesAcked + p.size
    if acked ≥ r.cwnd then
      { r with ccBytesAcked := acked - r.cwnd, cwnd := r.cwnd + maxDatagramSize }
    else { r with ccBytesAcked := acked }

def onCongestionEvent (sentTime now : ℤ) : Recovery :=
  if r.cwnd = 0 then r
  else if r.bbr then r
  else if after sentTime r.recoveryStart = false then r
  else
    let half := r.cwnd / 2
    { r with
      recoveryStart := some now
      ssthresh := half
      cwnd := if half < kMinimumWindow then kMinimumWindow else half
      ccBytesAcked := 0 }

def ptoBase : ℤ :=
  if r.rtt.haveSample = false then 2 * kInitialRtt
  else
    let base := r.rtt.smoothedRTT + max (4 * r.rtt.rttvar) kGranularity
    if r.handshakeConfirmed then base + r.peerMaxAckDelay else base

def persistentCongestionDuration : ℤ :=
  (if r.handshakeComplete then r.ptoBase else r.ptoBase + r.peerMaxAckDelay) *
    kPersistentCongestionThreshold

/-- `onPersistentCongestion`. Both controllers collapse to the floor; the count of acknowledged
bytes belongs to NewReno. -/
def onPersistentCongestion : Recovery :=
  if r.cwnd = 0 then r
  else if r.bbr then
    { r with
      cwnd := kMinimumWindow
      recoveryStart := none
      rtt := { r.rtt with resetMin := true } }
  else
    { r with
      cwnd := kMinimumWindow
      recoveryStart := none
      ccBytesAcked := 0
      rtt := { r.rtt with resetMin := true } }

def cwndLimited (priorInFlight : ℕ) : Bool :=
  decide (priorInFlight ≥ r.cwnd) ||
    (decide (r.cwnd < r.ssthresh) && decide (priorInFlight > r.cwnd / 2))

/-! ## Payload buffers -/

/-- The bytes a frame carries. -/
def payload (f : RetransFrame) : Bytes :=
  ((f.data.bind fun b => r.heap[b]?).map (·.bytes)).getD []

/-- A frame with its bytes. -/
def carried (f : RetransFrame) : RetransFrame × Bytes := (f, r.payload f)

/-- A buffer of its own for `src`, at the end of the heap. -/
def allocate (cap : ℕ) (src : Bytes) : Option ℕ × Recovery :=
  (some r.heap.length, { r with heap := r.heap ++ [⟨cap, src⟩] })

/-- A recycled buffer large enough for `src`: only the top of the free list is looked at. -/
def recycled (src : Bytes) : Option ℕ :=
  r.retransFree.head?.filter fun b =>
    decide ((r.heap[b]?.map (·.cap)).getD 0 ≥ src.length)

/-- `retransCopy`: the buffer that holds a copy of `src`, and the state after it was taken.
`cap` is the capacity the allocator chooses for a copy larger than a datagram. -/
def retransCopy (src : Bytes) (cap : ℕ) : Option ℕ × Recovery :=
  if src.length = 0 then (none, r)
  else
    match r.recycled src with
    | some b => (some b, { r with
        retransFree := r.retransFree.tail
        heap := r.heap.modify b fun buf => { buf with bytes := src } })
    | none =>
      if src.length ≤ maxDatagramSize then r.allocate maxDatagramSize src
      else r.allocate (max cap src.length) src

/-- `retransPut`. -/
def retransPut (b : Option ℕ) : Recovery :=
  match b with
  | none => r
  | some b =>
    let cap := (r.heap[b]?.map (·.cap)).getD 0
    if cap = 0 ∨ cap > maxDatagramSize ∨ r.retransFree.length ≥ retransFreeMax then r
    else { r with retransFree := b :: r.retransFree }

/-! ## Acknowledgments and losses -/

/-- The entry's number is in the range. -/
def inRange (low high : ℕ) (e : Entry) : Bool := decide (low ≤ e.1 ∧ e.1 ≤ high)

/-- `sentSpace.ack`: the state without the packets of the range, and the send time that gives
a sample of the round-trip time. -/
def ack (sp : Space) (low high : ℕ) : Option ℤ × Recovery :=
  let s := r.sent sp
  let newLargest := s.largestAcked.all fun l => decide (high > l)
  let acked := s.packets.filter (inRange low high)
  let sendTime := (s.packets.find? fun e => e.1 = high).map (·.2.timeSent)
  let hasRTT := newLargest && acked.any (·.2.ackEliciting)
  let s := { s with
    largestAcked := if newLargest then some high else s.largestAcked
    packets := s.packets.filter fun e => !inRange low high e }
  let r := { r with
    sent := update r.sent sp s
    ackedLog := r.ackedLog ++ (acked.filterMap fun e => e.2.frame).map r.carried }
  let r := acked.foldl (fun r e => r.retransPut (e.2.frame.bind (·.data))) r
  (if hasRTT then sendTime else none, r)

/-- The round-trip sample of an acknowledgment. -/
def sample (sendTime ackDelay now : ℤ) : Recovery :=
  { r with
    firstRTTSample := if r.rtt.haveSample then r.firstRTTSample else some now
    rtt := r.rtt.update (now - sendTime) ackDelay
    ptoCount := 0 }

/-- The loop of `onAckRange`: credit the controller for each newly acknowledged packet before
the packets are taken away. -/
def creditAcked (sp : Space) (low high : ℕ) (limited : Bool) : Recovery :=
  let acked := ((r.sent sp).packets.filter (inRange low high)).filter fun e => e.2.ackEliciting
  let r := acked.foldl (fun r e => r.onPacketAcked e.2 limited) r
  { r with sent := update r.sent sp { r.sent sp with
    ackedElicit := (r.sent sp).ackedElicit ++ acked.map fun e : Entry => e.2.timeSent } }

/-- `onAckRange`. -/
def onAckRange (sp : Space) (low high : ℕ) (ackDelay : ℤ) (priorInFlight : ℕ)
    (now : ℤ) : Recovery :=
  match (r.creditAcked sp low high (r.cwndLimited priorInFlight)).ack sp low high with
  | (none, r) => r
  | (some sendTime, r) => r.sample sendTime ackDelay now

/-- The ranges of an ACK frame, as `OnAck` and `OnAckRange` hand them on: the first one carries
the delay, and all share the bytes in flight before the frame. -/
def onAckFrame (sp : Space) (ranges : List (ℕ × ℕ)) (ackDelay now : ℤ) : Recovery :=
  let prior := r.bytesInFlight
  match ranges with
  | [] => r
  | first :: rest =>
    rest.foldl (fun r range => r.onAckRange sp range.1 range.2 0 prior now)
      (r.onAckRange sp first.1 first.2 ackDelay prior now)

/-- Whether `detectLost` declares a packet lost. -/
def isLost (sp : Space) (now : ℤ) (e : Entry) : Bool :=
  match (r.sent sp).largestAcked with
  | none => false
  | some largest => decide (e.1 ≤ largest) &&
      (decide (largest ≥ e.1 + kPacketThreshold) ||
        decide (e.2.timeSent ≤ now - r.rtt.lossDelay))

/-- Take packets out of flight. -/
def removeAll (lost : List Entry) : Recovery :=
  (lost.filter fun e => e.2.ackEliciting).foldl (fun r e => r.removeInFlight e.2.size) r

def pruneAcked (s : SentSpace) : SentSpace :=
  match ((s.packets.filter (·.2.ackEliciting)).map (·.2.timeSent)).min? with
  | none => { s with ackedElicit := [] }
  | some oldest => { s with ackedElicit := s.ackedElicit.filter fun t => decide (oldest < t) }

/-- The verdict on the window after losses: a congestion event, and persistent congestion when
the losses span long enough with no acknowledgment inside. -/
def onLosses (sp : Space) (lost : List Entry) (now : ℤ) : Recovery :=
  let times := (lost.filter (·.2.ackEliciting)).map (·.2.timeSent)
  match times.max? with
  | none => r
  | some newest =>
    let r := r.onCongestionEvent newest now
    let spanned := times.filter fun t => r.firstRTTSample.any fun first => decide (first < t)
    match spanned.min?, spanned.max? with
    | some earliest, some latest =>
      if latest - earliest > r.persistentCongestionDuration ∧
          ¬ (r.sent sp).ackedElicit.any (fun t => decide (earliest < t ∧ t < latest)) then
        r.onPersistentCongestion
      else r
    | _, _ => r

/-- `detectLost`: the frames of lost packets go to the retransmit queue. -/
def detectLost (sp : Space) (now : ℤ) : Recovery :=
  if (r.sent sp).largestAcked = none then r
  else
    let packets := (r.sent sp).packets
    let lost := packets.filter (r.isLost sp now)
    let kept := packets.filter fun e => !r.isLost sp now e
    let queue := r.retransQueue sp ++ lost.filterMap (·.2.frame)
    let r := ((r.removeAll lost).setPackets sp kept).setQueue sp queue
    let r := r.onLosses sp lost now
    { r with sent := update r.sent sp (pruneAcked (r.sent sp)) }

/-! ## Probes -/

def ptoArmed (sp : Space) : Bool := decide (sp ≠ .app) || r.handshakeConfirmed

def hasInFlight : Bool :=
  spaces.any fun sp => r.ptoArmed sp && (r.sent sp).packets.any (·.2.ackEliciting)

/-- One turn of the search for the oldest packet that elicits an acknowledgment and carries a
frame. -/
def probeStep (oldest : Option Entry) (e : Entry) : Option Entry :=
  if e.2.ackEliciting && e.2.frame.isSome &&
      oldest.all (fun o => decide (e.2.timeSent < o.2.timeSent)) then some e
  else oldest

def oldestProbe (packets : List Entry) : Option Entry :=
  packets.foldl probeStep none

/-- A turn keeps what it holds or takes an eligible packet. -/
theorem probeStep_cases (oldest : Option Entry) (e : Entry) :
    probeStep oldest e = oldest ∨
      (probeStep oldest e = some e ∧ e.2.ackEliciting = true) := by
  unfold probeStep
  split_ifs with h
  · simp only [Bool.and_eq_true] at h
    exact .inr ⟨rfl, h.1.1⟩
  · exact .inl rfl

/-- `queueOldestProbe`. -/
def queueOldestProbe (sp : Space) : Bool × Recovery :=
  match oldestProbe (r.sent sp).packets with
  | none => (false, r)
  | some (pn, p) =>
    let r := r.setQueue sp (r.retransQueue sp ++ p.frame.toList)
    let r := r.removeInFlight p.size
    (true, r.setPackets sp ((r.sent sp).packets.filter fun e => decide (e.1 ≠ pn)))

/-- The loop of `onPTO` over the spaces. -/
def queueProbes (r : Recovery) : List Space → Bool × Recovery
  | [] => (false, r)
  | sp :: rest =>
    if r.ptoArmed sp then
      let (queued, r) := r.queueOldestProbe sp
      let (more, r) := r.queueProbes rest
      (queued || more, r)
    else r.queueProbes rest

/-- `onPTO`. -/
def onPTO : Recovery :=
  let (queued, r) := r.queueProbes spaces
  let r :=
    if queued then { r with ptoExempt := true }
    else if r.handshakeComplete = false then { r with handshakeProbe := true }
    else if r.hasInFlight then { r with probePending := true }
    else r
  if r.ptoCount < maxPTOBackoff then { r with ptoCount := r.ptoCount + 1 } else r

/-! ## What ends the life of packets without an acknowledgment -/

/-- `requeueInitialForRetry`. -/
def requeueInitialForRetry : Recovery :=
  let packets := (r.sent .initial).packets
  let queue := r.retransQueue .initial ++ packets.filterMap (·.2.frame)
  ((r.removeAll packets).setPackets .initial []).setQueue .initial queue

/-- `discardSpace`. -/
def discardSpace (sp : Space) : Recovery :=
  let r := r.removeAll (r.sent sp).packets
  { r with
    sent := update r.sent sp .empty
    retransQueue := update r.retransQueue sp []
    ptoCount := 0 }

/-- A STREAM frame of the stream `id`. -/
def isStreamData (id : ℕ) (f : RetransFrame) : Bool := decide (f.kind = .stream ∧ f.streamID = id)

/-- A packet without the STREAM frame of a reset stream. -/
def scrubPacket (id : ℕ) (p : SentPacket) : SentPacket :=
  { p with frame := p.frame.filter fun f => !isStreamData id f }

/-- `scrubResetStreamData`. -/
def scrubResetStreamData (id : ℕ) : Recovery :=
  (r.setQueue .app ((r.retransQueue .app).filter fun f => !isStreamData id f)).setPackets .app
    ((r.sent .app).packets.map fun e => (e.1, scrubPacket id e.2))

/-! ## Sending -/

/-- `onSent`: record the packet under its number. -/
def onSent (sp : Space) (pn : ℕ) (p : SentPacket) : Recovery :=
  r.setPackets sp ((r.sent sp).packets.filter (fun e => decide (e.1 ≠ pn)) ++ [(pn, p)])

/-- `onPacketSent`. -/
def onPacketSent (sp : Space) (pn : ℕ) (ackEliciting : Bool) (size : ℕ) : Recovery :=
  if ackEliciting = false then r
  else
    let r := r.setPackets sp ((r.sent sp).packets.map fun e =>
      if e.1 = pn then (e.1, { e.2 with size := size }) else e)
    { r with bytesInFlight := r.bytesInFlight + size }

/-- How the sealing and the writing of a packet end: refused at the limit of the key before
anything is recorded, failed after the packet was recorded, or sealed to a size on the wire and
then written or not. -/
inductive Sealing where
  | limit
  | failed
  | sealed (size : ℕ) (written : Bool)
  deriving DecidableEq, Repr

/-- `sealPacket` as far as recovery is concerned. -/
def sealPacket (sp : Space) (ackEliciting : Bool) (frame : Option RetransFrame)
    (outcome : Sealing) (now : ℤ) : Recovery :=
  let pn := r.sendPN sp
  let recorded := { r with sendPN := update r.sendPN sp (pn + 1) }.onSent sp pn
    ⟨now, 0, frame, ackEliciting⟩
  match outcome with
  | .limit => r
  | .failed => recorded
  | .sealed size _ => { recorded.onPacketSent sp pn ackEliciting size with
      sealedLog := r.sealedLog ++ frame.toList.map r.carried }

/-- What the wire and the clock do to a call: how each packet ends and what the pacer admits
before it, by its number, and the time. -/
structure Wire where
  outcome : ℕ → Sealing
  paced : ℕ → ℕ
  now : ℤ

/-- One packet passes a full window, and takes the exemption with it. -/
def spendExemption : Recovery :=
  if r.cwnd > 0 ∧ r.bytesInFlight ≥ r.cwnd then { r with ptoExempt := false } else r

/-- The loop of `flushRetransmits`. `resend` is the frame to send in the place of a queued one,
if it is to be sent at all; `burst` is what the loop has sent. -/
def flushLoop (sp : Space) (resend : RetransFrame → Option RetransFrame) (wire : Wire) :
    ℕ → ℕ → Recovery → Recovery
  | 0, _, r => r
  | fuel + 1, burst, r =>
    match r.retransQueue sp with
    | [] => r
    | f :: queue =>
      if r.cwnd > 0 ∧ r.bytesInFlight ≥ r.cwnd ∧ r.ptoExempt = false then r
      else if r.cwnd > 0 ∧ burst ≥ kInitialWindow then r.spendExemption
      else
        let r := r.spendExemption.setQueue sp queue
        match resend f with
        | none => flushLoop sp resend wire fuel burst r
        | some f =>
          let sealed := r.sealPacket sp true (some f) (wire.outcome (r.sendPN sp)) wire.now
          match wire.outcome (r.sendPN sp) with
          | .sealed size true => flushLoop sp resend wire fuel (burst + size) sealed
          | _ => sealed

/-- `flushRetransmits`. Each turn of the loop takes a frame off the queue. -/
def flushRetransmits (sp : Space) (resend : RetransFrame → Option RetransFrame)
    (wire : Wire) : Recovery :=
  flushLoop sp resend wire (r.retransQueue sp).length 0 r

/-- What the turns of the loop keep, the whole of it keeps: a turn takes a frame off the queue
and drops it or seals what stands for it, and may use up the exemption of a probe before. -/
theorem flushRetransmits_keeps {P : Recovery → Prop} {sp : Space}
    {resend : RetransFrame → Option RetransFrame} {wire : Wire}
    (hexempt : ∀ r, P r → P { r with ptoExempt := false })
    (hdrop : ∀ r f queue, P r → r.retransQueue sp = f :: queue → resend f = none →
      P (r.setQueue sp queue))
    (hseal : ∀ r f queue f', P r → r.retransQueue sp = f :: queue → resend f = some f' →
      P ((r.setQueue sp queue).sealPacket sp true (some f') (wire.outcome (r.sendPN sp)) wire.now))
    {r : Recovery} (h : P r) : P (r.flushRetransmits sp resend wire) := by
  have hloop : ∀ (fuel burst : ℕ) (r : Recovery), P r → P (flushLoop sp resend wire fuel burst r) := by
    intro fuel
    induction fuel with
    | zero => exact fun _ _ h => h
    | succ fuel ih =>
      intro burst r h
      have hspent : P r.spendExemption := by
        unfold spendExemption
        split_ifs
        · exact hexempt r h
        · exact h
      have hqueued : r.spendExemption.retransQueue = r.retransQueue := by
        unfold spendExemption
        split_ifs <;> rfl
      unfold flushLoop
      split
      · exact h
      rename_i f queue hqueue
      rw [← hqueued] at hqueue
      split_ifs
      · exact h
      · exact hspent
      · dsimp only
        split
        · rename_i hresend
          exact ih burst _ (hdrop _ f queue hspent hqueue hresend)
        · rename_i f' hresend
          have hsealed := hseal _ f queue f' hspent hqueue hresend
          split
          · exact ih _ _ hsealed
          · exact hsealed
  exact hloop _ 0 r h

/-- `queueRetire`: a RETIRE_CONNECTION_ID goes out through the retransmit queue. -/
def queueRetire (seq : ℕ) : Recovery :=
  r.setQueue .app (r.retransQueue .app ++ [⟨.retire, 0, seq, 0, none, false⟩])

/-- The PING of a probe has been put in a packet. -/
def takeProbe : Recovery :=
  { r with probePending := false, handshakeProbe := false }

/-- The end of `flush`. -/
def endFlush : Recovery := { r with ptoExempt := false }

/-- `OnHandshakeDone`. -/
def onHandshakeDone : Recovery :=
  { r with handshakeComplete := true, handshakeConfirmed := true }.discardSpace .handshake

/-! ## Steps -/

/-- A step that touches the packets sent, the queues or the window. -/
inductive Op where
  | sealPacket (sp : Space) (ackEliciting : Bool) (frame : Option RetransFrame) (outcome : Sealing)
    (now : ℤ)
  | ackFrame (sp : Space) (ranges : List (ℕ × ℕ)) (ackDelay now : ℤ)
  | detectLost (sp : Space) (now : ℤ)
  | onPTO
  | retry
  | scrub (id : ℕ)
  | discardSpace (sp : Space)
  | flushRetransmits (sp : Space) (resend : RetransFrame → Option RetransFrame) (wire : Wire)
  | queueRetire (seq : ℕ)
  | takeProbe
  | endFlush
  | handshakeComplete
  | handshakeDone
  | peerMaxAckDelay (delay : ℤ)
  /-- the other controller sets its window -/
  | bbrSetWindow (cwnd : ℕ)
  /-- the next range loop meets the packets in another order -/
  | reorder (sp : Space) (packets : List Entry)

def step : Op → Option Recovery
  | .sealPacket sp ackEliciting frame outcome now =>
    some (r.sealPacket sp ackEliciting frame outcome now)
  | .ackFrame sp ranges ackDelay now => some (r.onAckFrame sp ranges ackDelay now)
  | .detectLost sp now => some (r.detectLost sp now)
  | .onPTO => some r.onPTO
  | .retry => some r.requeueInitialForRetry
  | .scrub id => some (r.scrubResetStreamData id)
  | .discardSpace sp => some (r.discardSpace sp)
  | .flushRetransmits sp resend wire => some (r.flushRetransmits sp resend wire)
  | .queueRetire seq => some (r.queueRetire seq)
  | .takeProbe => some r.takeProbe
  | .endFlush => some r.endFlush
  | .handshakeComplete => some { r with handshakeComplete := true }
  | .handshakeDone => some r.onHandshakeDone
  | .peerMaxAckDelay delay => some { r with peerMaxAckDelay := delay }
  | .bbrSetWindow cwnd => if r.bbr then some { r with cwnd := cwnd } else none
  | .reorder sp packets =>
    if packets.Perm (r.sent sp).packets then some (r.setPackets sp packets) else none

/-- A step the connection takes without looking at its streams: it sends nothing that would be
sent again, and the application space stays. -/
def Op.own : Op → Bool
  | .sealPacket _ _ frame _ _ => frame.isNone
  | .scrub _ | .flushRetransmits _ _ _ => false
  | .discardSpace sp => decide (sp ≠ .app)
  | _ => true

end Recovery

end Quic
