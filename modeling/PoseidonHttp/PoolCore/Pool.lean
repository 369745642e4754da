import Mathlib.Algebra.Ring.Int.Defs
import PoseidonHttp.Lib.Lending
import PoseidonHttp.Lib.Transition

/-!
# The HTTP/2 connection pool

`Pool.run` is an actor: it alone owns the connections of a host, the queue of requests and the
count of dials, and handles one message after the other. Its records are behind pointers, which
other goroutines keep; here they are a list that only grows, and a pointer is a place in it.

Around the actor stand its callers, the dials it has started, the channel `releaseCh`, and the
connections, which die and change their stream limit without asking. A handler runs as one step,
with one reading of the clock and of the state of the connections.
-/

namespace PoolCore

open Lending Transition

/-- The effective limit when neither side has one. -/
def defaultMaxConcurrentStreams : ℤ := 100

/-- The options of a pool that its decisions read. Times are in nanoseconds. -/
structure PoolOptions where
  maxConnsPerHost : ℤ
  maxStreamsPerConn : ℤ
  idleTimeout : ℤ
  dialBackoff : ℤ
  deriving DecidableEq, Repr

/-- The defaults that `New` fills in. -/
def PoolOptions.floored (opts : PoolOptions) : PoolOptions :=
  { opts with
    maxConnsPerHost := if opts.maxConnsPerHost ≤ 0 then 1 else opts.maxConnsPerHost
    dialBackoff := if opts.dialBackoff ≤ 0 then 1000000000 else opts.dialBackoff }

/-- A connection, by what a pool asks of it. -/
structure Conn where
  readerExited : Bool
  closed : Bool
  goAwayReceived : Bool
  /-- zero if the peer has not advertised a limit -/
  peerMaxConcurrentStreams : ℕ
  deriving DecidableEq, Repr

def Conn.isAlive (c : Conn) : Bool := !c.readerExited && !c.closed && !c.goAwayReceived

def Conn.close (c : Conn) : Conn := { c with closed := true }

structure ManagedConn where
  c : Conn
  active : ℤ
  lastUsed : ℕ
  streamCap : ℤ
  deriving DecidableEq, Repr

/-- The record that `dialOne` makes around a new connection. -/
def ManagedConn.dialed (c : Conn) (lastUsed : ℕ) : ManagedConn :=
  { c, active := 0, lastUsed, streamCap := 0 }

inductive CloseReason where
  | idle
  | dead
  | goAway
  | manual
  deriving DecidableEq, Repr

/-- The error of an `AcquireResp`. -/
inductive AcquireErr where
  | poolClosed
  | dialBackoff
  | dialError (err : String)
  /-- the error of the caller's context -/
  | ctx
  deriving DecidableEq, Repr

/-- What is kept on record of the past: the record a lease was granted on, and the record that
was closed, with the reason `OnConnClose` was told or none if the hook was passed over. -/
inductive Event where
  | granted (mc : ℕ) (record : ManagedConn)
  | closed (mc : ℕ) (record : ManagedConn) (reason : Option CloseReason) (byClose : Bool)
  deriving DecidableEq, Repr

/-- The actor with its loop state, and what is around it. A caller is one call of `Acquire` that
the actor accepted; its mailbox is the reply channel. -/
structure Pool where
  opts : PoolOptions
  pickCursor : ℕ
  conns : List ℕ
  waiters : List ℕ
  inFlightDials : ℤ
  lastDialErrAt : Option ℕ
  /-- `closedCh` is closed -/
  closed : Bool
  /-- every record `dialOne` has made -/
  mcs : List ManagedConn
  now : ℕ
  /-- `dialOne` goroutines that have not delivered -/
  dialing : ℕ
  /-- results the goroutine that `handleClose` started has yet to receive -/
  drains : ℤ
  releaseCh : List ℕ
  callers : List (Client AcquireErr)
  connsClosed : ℕ
  goAwaysReceived : ℕ
  log : List Event

/-- `EffectiveStreamCap`. -/
def effectiveStreamCap (localCap peerCap : ℤ) : ℤ :=
  if localCap ≤ 0 ∧ peerCap ≤ 0 then defaultMaxConcurrentStreams
  else if localCap ≤ 0 then peerCap
  else if peerCap ≤ 0 then localCap
  else if peerCap < localCap then peerCap
  else localCap

namespace Pool

def new (opts : PoolOptions) : Pool where
  opts := opts.floored
  pickCursor := 0
  conns := []
  waiters := []
  inFlightDials := 0
  lastDialErrAt := none
  closed := false
  mcs := []
  now := 0
  dialing := 0
  drains := 0
  releaseCh := []
  callers := []
  connsClosed := 0
  goAwaysReceived := 0
  log := []

/-- A record that was never made: it counts as closed. -/
def noConn : ManagedConn := ⟨⟨true, true, false, 0⟩, 0, 0, 0⟩

variable (p : Pool)

/-- The record behind a pointer. -/
def mc (c : ℕ) : ManagedConn := p.mcs[c]?.getD noConn

/-- A change of the record behind a pointer. -/
def setMc (c : ℕ) (f : ManagedConn → ManagedConn) : Pool :=
  { p with mcs := p.mcs.modify c f }

/-! ### What the handlers are made of -/

def inDialBackoff : Bool :=
  match p.lastDialErrAt with
  | none => false
  | some t => decide (0 < p.opts.dialBackoff) && decide ((p.now : ℤ) - t < p.opts.dialBackoff)

def countLive : ℕ := p.conns.countP fun c => (p.mc c).c.isAlive

def spareStreamCapacity : ℤ :=
  (p.conns.map fun c =>
    let mc := p.mc c
    if !mc.c.isAlive then 0
    else if 0 < mc.streamCap - mc.active then mc.streamCap - mc.active
    else 0).sum

def sumActive : ℤ := (p.conns.map fun c => (p.mc c).active).sum

def replyAcquire (req : ℕ) (resp : Except AcquireErr ℕ) : Pool :=
  { p with callers := p.callers.modify req (.deliver resp) }

/-- The loop of `PickLeastLoaded`, over the rest of the positions `k`. -/
def pickLoop (p : Pool) (start : ℕ) : List ℕ → Option ℕ → Option ℕ × Pool
  | [], best => (best, p)
  | k :: ks, best =>
    let n := p.conns.length
    let c := p.conns[(start + k) % n]?.getD 0
    let mc := p.mc c
    if !mc.c.isAlive then p.pickLoop start ks best
    else if mc.streamCap ≤ mc.active then p.pickLoop start ks best
    else if mc.active = 0 then (some c, { p with pickCursor := (start + k + 1) % n })
    else
      match best with
      | none => p.pickLoop start ks (some c)
      | some b => p.pickLoop start ks (if mc.active < (p.mc b).active then some c else some b)

def pickLeastLoaded : Option ℕ × Pool :=
  let n := p.conns.length
  if n = 0 then (none, p) else p.pickLoop (p.pickCursor % n) (List.range n) none

/-- A lease on `c` for `req`: `Active++`, the time, and the reply. -/
def grant (req c : ℕ) : Pool :=
  let granted : Event := .granted c (p.mc c)
  let p := p.setMc c fun mc => { mc with active := mc.active + 1, lastUsed := p.now }
  { p.replyAcquire req (.ok c) with log := p.log ++ [granted] }

/-- `serveWaiters`. -/
def serveLoop (p : Pool) : List ℕ → Pool
  | [] => { p with waiters := [] }
  | req :: rest =>
    match p.pickLeastLoaded with
    | (none, p) => { p with waiters := req :: rest }
    | (some c, p) => (p.grant req c).serveLoop rest

def serveWaiters : Pool := p.serveLoop p.waiters

/-- `go p.dialOne()` with its count, `n` times. -/
def startDials (n : ℕ) : Pool :=
  { p with inFlightDials := p.inFlightDials + n, dialing := p.dialing + n }

def refreshStreamCap (c : ℕ) : Pool :=
  p.setMc c fun mc => { mc with
    streamCap := effectiveStreamCap p.opts.maxStreamsPerConn mc.c.peerMaxConcurrentStreams }

/-- `Close` on the connection, with the counter `ConnsClosed`. -/
def closeConn (c : ℕ) (reason : Option CloseReason) (byClose : Bool) : Pool :=
  let closed : Event := .closed c (p.mc c) reason byClose
  let p := p.setMc c fun mc => { mc with c := mc.c.close }
  { p with connsClosed := p.connsClosed + 1, log := p.log ++ [closed] }

/-- The counter of GOAWAYs, for a connection about to be closed. -/
def countGoAway (c : ℕ) : Pool :=
  if (p.mc c).c.goAwayReceived then { p with goAwaysReceived := p.goAwaysReceived + 1 } else p

/-- The reason for the closing of a connection, `other` unless the peer sent GOAWAY. -/
def closeReason (c : ℕ) (other : CloseReason) : CloseReason :=
  if (p.mc c).c.goAwayReceived then .goAway else other

/-- The loop of the evictions: what is doomed is closed and left out. -/
def evictLoop (doomed : Pool → ℕ → Bool) (close : Pool → ℕ → Pool) (p : Pool) :
    List ℕ → List ℕ → Pool
  | out, [] => { p with conns := out }
  | out, c :: cs =>
    if doomed p c then evictLoop doomed close (close p c) out cs
    else evictLoop doomed close p (out ++ [c]) cs

def evict (target : ℕ) (reason : CloseReason) : Pool :=
  p.evictLoop (fun _ c => c == target) (fun p c => p.closeConn c (some reason) false) [] p.conns

def evictIdle : Pool :=
  if p.opts.idleTimeout ≤ 0 then p
  else p.evictLoop
    (fun p c => decide ((p.mc c).active = 0) &&
      decide ((p.now : ℤ) - (p.mc c).lastUsed > p.opts.idleTimeout))
    (fun p c => p.closeConn c (some .idle) false) [] p.conns

/-- Not alive and not in use. -/
def spent (c : ℕ) : Bool := !(p.mc c).c.isAlive && decide ((p.mc c).active = 0)

def evictDead : Pool :=
  p.evictLoop spent
    (fun p c => (p.countGoAway c).closeConn c (some (p.closeReason c .dead)) false) [] p.conns

def evictDeadSilent : Pool :=
  p.evictLoop spent (fun p c => (p.countGoAway c).closeConn c none false) [] p.conns

/-- `pruneExpiredWaiters`. -/
def pruneLoop (p : Pool) : List ℕ → List ℕ → Pool
  | out, [] => { p with waiters := out }
  | out, req :: ws =>
    if (p.callers[req]?.map Client.expired).getD false then
      (p.replyAcquire req (.error .ctx)).pruneLoop out ws
    else p.pruneLoop (out ++ [req]) ws

def pruneExpiredWaiters : Pool := p.pruneLoop [] p.waiters

/-- The same error for everybody in the list. -/
def refuseAll (p : Pool) (err : AcquireErr) : List ℕ → Pool
  | [] => { p with waiters := [] }
  | req :: rest => (p.replyAcquire req (.error err)).refuseAll err rest

/-- An error for the front of the queue. -/
def refuseFront (err : AcquireErr) : Pool :=
  match p.waiters with
  | [] => p
  | req :: rest => { p.replyAcquire req (.error err) with waiters := rest }

def ensureDialForWaiters : Pool :=
  if p.waiters.length = 0 then p
  else
    let room := p.opts.maxConnsPerHost - p.countLive - p.inFlightDials
    if room ≤ 0 then p
    else if p.inDialBackoff then p
    else
      let perConn := effectiveStreamCap p.opts.maxStreamsPerConn 0
      let uncovered := p.waiters.length - p.spareStreamCapacity - p.inFlightDials * perConn
      if uncovered ≤ 0 then p
      else
        -- round up: a partial batch still needs a connection
        let need := (uncovered + perConn - 1) / perConn
        p.startDials (min need room).toNat

def flushStrandedWaiters (err : AcquireErr) : Pool :=
  if p.waiters.length = 0 ∨ p.inFlightDials > 0 then p
  else if p.countLive > 0 then p
  else if !p.inDialBackoff then p
  else p.refuseAll err p.waiters

/-! ### The handlers -/

def handleAcquire (req : ℕ) : Pool :=
  match p.pickLeastLoaded with
  | (some c, p) => p.grant req c
  | (none, p) =>
    let liveConns := p.countLive
    let atCap := decide (liveConns + p.inFlightDials ≥ p.opts.maxConnsPerHost)
    let inBackoff := p.inDialBackoff
    if !atCap && !inBackoff then
      let p := p.startDials 1
      { p with waiters := p.waiters ++ [req] }
    else if inBackoff && liveConns == 0 && p.inFlightDials == 0 then
      p.replyAcquire req (.error .dialBackoff)
    else { p with waiters := p.waiters ++ [req] }

def handleRelease (c : ℕ) : Pool :=
  let p := p.setMc c fun mc => { mc with active := mc.active - 1, lastUsed := p.now }
  let p := if p.spent c then (p.countGoAway c).evict c (p.closeReason c .dead) else p
  p.serveWaiters.ensureDialForWaiters.flushStrandedWaiters .dialBackoff

/-- `HandleDialDone` for a dial that failed. -/
def handleDialFailed (err : String) : Pool :=
  let p := { p with
    dialing := p.dialing - 1
    inFlightDials := p.inFlightDials - 1
    lastDialErrAt := some p.now }
  let p := p.refuseFront (.dialError err)
  p.ensureDialForWaiters.flushStrandedWaiters (.dialError err)

/-- `HandleDialDone` for a dial that brought a connection. -/
def handleDialed (c : Conn) (lastUsed : ℕ) : Pool :=
  let mc := p.mcs.length
  let p : Pool := { p with
    dialing := p.dialing - 1
    inFlightDials := p.inFlightDials - 1
    mcs := p.mcs ++ [.dialed c lastUsed] }
  let p := p.refreshStreamCap mc
  let p := { p with conns := p.conns ++ [mc] }
  p.serveWaiters.ensureDialForWaiters

/-- The snapshot that `handleStats` sends. -/
structure Stats where
  activeConns : ℕ
  inFlightStreams : ℤ
  waiters : ℕ
  inFlightDials : ℤ
  deriving DecidableEq, Repr

def handleStats : Stats × Pool :=
  let p := p.evictDeadSilent
  (⟨p.conns.length, p.sumActive, p.waiters.length, p.inFlightDials⟩, p)

def handleTick : Pool :=
  let p := p.evictDead.evictIdle
  let p := p.conns.foldl refreshStreamCap p
  p.serveWaiters.pruneExpiredWaiters.ensureDialForWaiters.flushStrandedWaiters .dialBackoff

def handleWarmup (n : ℤ) : Pool :=
  let target := if n > p.opts.maxConnsPerHost then p.opts.maxConnsPerHost else n
  let need := target - p.countLive - p.inFlightDials
  if need ≤ 0 then p
  else if p.inDialBackoff then p
  else p.startDials need.toNat

/-- The last loop of `handleClose`. -/
def closeAll (p : Pool) : List ℕ → Pool
  | [] => p
  | c :: cs => ((p.countGoAway c).closeConn c (some (p.closeReason c .manual)) true).closeAll cs

def handleClose : Pool :=
  let p := p.refuseAll .poolClosed p.waiters
  let p := if p.inFlightDials > 0 then
      { p with drains := p.inFlightDials, inFlightDials := 0 }
    else p
  p.closeAll p.conns

/-! ### The system -/

inductive Op where
  /-- the actor takes a request from `acquireCh` -/
  | acquire
  /-- the actor takes a message from `releaseCh` -/
  | handleRelease
  | warmup (n : ℤ)
  | dialed (c : Conn) (lastUsed : ℕ)
  | dialFailed (err : String)
  | stats
  | tick
  | close
  /-- a dial that was under way at the closing ends, with a connection or without one -/
  | drained (c : Option Conn)
  /-- the context of a caller ends -/
  | expire (i : ℕ)
  /-- a caller, or `reclaim` for it, takes the reply -/
  | receive (i : ℕ)
  | abandon (i : ℕ)
  /-- `Release`: the message goes into the channel -/
  | release (i : ℕ)
  /-- `Release` that finds the pool closed -/
  | releaseLate (i : ℕ)
  /-- a connection loses its reader, is closed by somebody, or the peer says that it goes away -/
  | readerExit (c : ℕ)
  | connClose (c : ℕ)
  | goAway (c : ℕ)
  | peerLimit (c n : ℕ)
  | elapse (d : ℕ)

/-- The steps of the actor. -/
def Op.isActor : Op → Bool
  | .acquire | .handleRelease | .warmup _ | .dialed _ _ | .dialFailed _ | .stats | .tick
  | .close => true
  | _ => false

def setC (c : ℕ) (f : Conn → Conn) : Pool :=
  p.setMc c fun mc => { mc with c := f mc.c }

/-- What a caller does with the first reply in its channel. -/
def receive (i : ℕ) : Option Pool :=
  match p.callers[i]? with
  | some ⟨_, .waiting, a :: rest, _⟩ => some { p with callers := p.callers.modify i (.take a rest) }
  | some ⟨_, .abandoned, a :: rest, _⟩ =>
    some { p with callers := p.callers.modify i (.take a rest) }
  | _ => none

def step : Op → Option Pool
  | .acquire =>
    if p.closed then none
    else some (handleAcquire { p with callers := p.callers ++ [.new] } p.callers.length)
  | .handleRelease =>
    match p.closed, p.releaseCh with
    | false, c :: rest => some (handleRelease { p with releaseCh := rest } c)
    | _, _ => none
  | .warmup n => if p.closed ∨ n ≤ 0 then none else some (p.handleWarmup n)
  | .dialed c lastUsed =>
    if p.closed ∨ p.dialing = 0 then none else some (p.handleDialed c lastUsed)
  | .dialFailed err => if p.closed ∨ p.dialing = 0 then none else some (p.handleDialFailed err)
  | .stats => if p.closed then none else some p.handleStats.2
  | .tick => if p.closed then none else some p.handleTick
  -- with the return of `run` the loop state is gone
  | .close => if p.closed then none else some { p.handleClose with conns := [], closed := true }
  | .drained c =>
    if p.closed = false ∨ p.drains ≤ 0 ∨ p.dialing = 0 then none
    else
      let p := { p with drains := p.drains - 1, dialing := p.dialing - 1 }
      match c with
      | none => some p
      | some c =>
        let mc := p.mcs.length
        some (closeConn { p with mcs := p.mcs ++ [.dialed c p.now] } mc (some .manual) true)
  | .expire i => some { p with callers := p.callers.modify i .expire }
  | .receive i => p.receive i
  | .abandon i =>
    match p.callers[i]? with
    | some ⟨expired, .waiting, _, _⟩ =>
      if expired || p.closed then
        some { p with callers := p.callers.modify i (.become .abandoned) }
      else none
    | _ => none
  | .release i =>
    match p.callers[i]? with
    | some ⟨_, .holding c, _, _⟩ =>
      if p.releaseCh.length < 16 then
        some { p with
          callers := p.callers.modify i (.become .gone)
          releaseCh := p.releaseCh ++ [c] }
      else none
    | _ => none
  | .releaseLate i =>
    match p.callers[i]? with
    | some ⟨_, .holding c, _, _⟩ =>
      if p.closed then
        some (setC { p with callers := p.callers.modify i (.become (.late c)) } c .close)
      else none
    | _ => none
  | .readerExit c => some (p.setC c fun x => { x with readerExited := true })
  | .connClose c => some (p.setC c .close)
  | .goAway c => some (p.setC c fun x => { x with goAwayReceived := true })
  | .peerLimit c n => some (p.setC c fun x => { x with peerMaxConcurrentStreams := n })
  | .elapse d => some { p with now := p.now + d }

def system (opts : PoolOptions) : System Pool Op := ⟨new opts, step⟩

end Pool

end PoolCore
