import PoseidonHttp.Qpack.Encoder
import PoseidonHttp.Lib.Transition

/-!
# The client's QPACK instruction streams

`client.go`: instructions for the server are appended to a write buffer, one for the decoder
stream and one for the encoder stream, and a flush hands the stream as much as it accepts
(`flushInstrStream`). Many goroutines append, each a whole instruction under the lock of the buffer,
and the reader flushes what flow control left (`serviceControl`).

* `instructions_once`: when a `Send` that returns an error accepted nothing, every byte goes to the
  stream once and in order.
* `failed_send_repeats`: an error that comes with a count is taken for one without, and the bytes
  of the count are sent again.
-/

namespace Http3.Instr

open Header (Bytes Field)
open Transition (System)

/-- How a call of `Send` ends: how many bytes were accepted, and whether there was an error. -/
structure Sending where
  accepted : ℕ
  failed : Bool
  deriving DecidableEq

/-- A stream, its write buffer and the residue flag. `instructions` records what was appended after
the stream type. -/
structure InstrStream where
  accepted : Bytes := []
  writeBuf : Bytes
  hasResidue : Bool := false
  instructions : Bytes := []
  deriving DecidableEq

namespace InstrStream

def append (s : InstrStream) (instr : Bytes) : InstrStream :=
  { s with writeBuf := s.writeBuf ++ instr, instructions := s.instructions ++ instr }

/-- `flushInstrStream`. -/
def flush (s : InstrStream) (send : Sending) : InstrStream :=
  if s.writeBuf.length = 0 then s
  else
    let accepted := s.accepted ++ s.writeBuf.take send.accepted
    -- the count is dropped here
    if send.failed then { s with accepted := accepted }
    else
      let rest := s.writeBuf.drop send.accepted
      { s with accepted := accepted, writeBuf := rest, hasResidue := decide (rest.length > 0) }

end InstrStream

def streamTypeQPACKEncoder : UInt8 := 0x02

def streamTypeQPACKDecoder : UInt8 := 0x03

def qpackDynamicTableCapacity : ℕ := 4096

structure Client where
  dec : InstrStream
  enc : InstrStream
  knownReceivedCount : ℕ
  qpackEncoder : Option Qpack.Encoder

/-- The streams as `newClient` leaves them. -/
def newClient (decSend encSend : Sending) : Client where
  dec := InstrStream.flush { writeBuf := [streamTypeQPACKDecoder] } decSend
  enc := InstrStream.flush { writeBuf := [streamTypeQPACKEncoder] } encSend
  knownReceivedCount := 0
  qpackEncoder := none

namespace Client

variable (c : Client)

def qpackDecWrite (instr : Bytes) (send : Sending) : Client :=
  { c with dec := (c.dec.append instr).flush send }

def qpackAckInserts (insertCount : ℕ) (send : Sending) : Client :=
  if insertCount > c.knownReceivedCount then
    { c.qpackDecWrite (Qpack.insertCountIncrement (insertCount - c.knownReceivedCount)) send with
      knownReceivedCount := insertCount }
  else { c with dec := c.dec.flush send }

def qpackSectionAck (streamID ric : ℕ) (send : Sending) : Client :=
  { c.qpackDecWrite (Hpack.encodeInteger 7 0x80 streamID) send with
    knownReceivedCount := max ric c.knownReceivedCount }

/-- The encoder hands out its instructions, and they are appended. -/
def drain (e : Qpack.Encoder) : Client :=
  { c with
    enc := c.enc.append e.drainEncoderInstructions.1
    qpackEncoder := some e.drainEncoderInstructions.2 }

/-- `enableEncoderDynamic`. -/
def enableEncoderDynamic (serverMaxCapacity : ℕ) (send : Sending) : Option Client :=
  if serverMaxCapacity < 32 ∨ c.qpackEncoder.isSome then some c
  else
    (Qpack.Encoder.newDynamic serverMaxCapacity
      (min serverMaxCapacity qpackDynamicTableCapacity)).map fun
      | .error _ => c
      | .ok e => { c.drain e with enc := (c.drain e).enc.flush send }

/-- `encodeRequestHeaders`. A request may be refused before its fields are encoded or after. -/
def encodeRequestHeaders (fields : List Field) (refused : Bool) (send : Sending) : Option Client :=
  match c.qpackEncoder with
  | none => some c
  | some e => (e.encodeFieldSection fields).map fun (_, e) =>
    if refused then { c with qpackEncoder := some e }
    else if e.pending.length > 0 then { c.drain e with enc := (c.drain e).enc.flush send }
    else c.drain e

/-- The end of `serviceControl`. -/
def flushResidue (decSend encSend : Sending) : Client :=
  { c with
    dec := if c.dec.hasResidue then c.dec.flush decSend else c.dec
    enc := if c.enc.hasResidue then c.enc.flush encSend else c.enc }

end Client

inductive Op where
  | decWrite (instr : Bytes) (send : Sending)
  | ackInserts (insertCount : ℕ) (send : Sending)
  | sectionAck (streamID ric : ℕ) (send : Sending)
  | enableEncoderDynamic (serverMaxCapacity : ℕ) (send : Sending)
  | encodeRequestHeaders (fields : List Field) (refused : Bool) (send : Sending)
  | readQPACKDecoder (data : Bytes)
  | flushResidue (decSend encSend : Sending)

def step (c : Client) : Op → Option Client
  | .decWrite instr send => some (c.qpackDecWrite instr send)
  | .ackInserts insertCount send => some (c.qpackAckInserts insertCount send)
  | .sectionAck streamID ric send => some (c.qpackSectionAck streamID ric send)
  | .enableEncoderDynamic capacity send => c.enableEncoderDynamic capacity send
  | .encodeRequestHeaders fields refused send => c.encodeRequestHeaders fields refused send
  | .readQPACKDecoder data => some { c with
      qpackEncoder := c.qpackEncoder.map fun e => (e.parseDecoderInstructions data).2.1 }
  | .flushResidue decSend encSend => some (c.flushResidue decSend encSend)

/-- A client and what its first two sends did. -/
def system (decSend encSend : Sending) : System Client Op := ⟨newClient decSend encSend, step⟩

/-! ## Every byte once -/

/-- An error means that nothing was accepted. -/
def Sending.Plain (send : Sending) : Prop := send.failed = true → send.accepted = 0

instance (send : Sending) : Decidable send.Plain :=
  inferInstanceAs (Decidable (send.failed = true → send.accepted = 0))

/-- The sends of a step. -/
def Op.sends : Op → List Sending
  | .decWrite _ send | .ackInserts _ send | .sectionAck _ _ send => [send]
  | .enableEncoderDynamic _ send | .encodeRequestHeaders _ _ send => [send]
  | .readQPACKDecoder _ => []
  | .flushResidue decSend encSend => [decSend, encSend]

namespace InstrStream

variable {s : InstrStream} {typ : UInt8} {send : Sending}

/-- The stream type and then the instructions, part of them accepted and the rest in the buffer. -/
def Whole (typ : UInt8) (s : InstrStream) : Prop :=
  s.accepted ++ s.writeBuf = typ :: s.instructions

theorem Whole.append (h : s.Whole typ) (instr : Bytes) : (s.append instr).Whole typ := by
  unfold Whole InstrStream.append at *
  rw [← List.append_assoc, h, List.cons_append]

theorem Whole.flush (h : s.Whole typ) (hsend : send.Plain) : (s.flush send).Whole typ := by
  unfold InstrStream.flush
  split_ifs with _ hfailed
  · exact h
  · rw [hsend hfailed, List.take_zero, List.append_nil]
    exact h
  · unfold Whole
    rw [List.append_assoc, List.take_append_drop]
    exact h

/-- What a flush without an error leaves in the buffer is marked. -/
theorem hasResidue_flush (hsend : send.failed = false) (hrest : (s.flush send).writeBuf ≠ []) :
    (s.flush send).hasResidue = true := by
  unfold InstrStream.flush at *
  split_ifs at hrest ⊢ with hempty hfailed
  · exact absurd (List.length_eq_zero_iff.mp hempty) hrest
  · rw [hsend] at hfailed
    cases hfailed
  · exact decide_eq_true (List.length_pos_iff.mpr hrest)

end InstrStream

/-- Both streams. -/
structure Client.Whole (c : Client) : Prop where
  dec : c.dec.Whole streamTypeQPACKDecoder
  enc : c.enc.Whole streamTypeQPACKEncoder

theorem newClient_whole {decSend encSend : Sending} (hdec : decSend.Plain) (henc : encSend.Plain) :
    (newClient decSend encSend).Whole :=
  ⟨.flush rfl hdec, .flush rfl henc⟩

theorem step_whole {c c' : Client} {op : Op} (h : c.Whole) (hplain : ∀ send ∈ op.sends, send.Plain)
    (hs : step c op = some c') : c'.Whole := by
  have hdrain : ∀ e send, send.Plain → Client.Whole { c.drain e with
      enc := (c.drain e).enc.flush send } :=
    fun e send hsend => ⟨h.dec, (h.enc.append _).flush hsend⟩
  have hwrite : ∀ instr send, send.Plain → (c.qpackDecWrite instr send).Whole :=
    fun instr send hsend => ⟨(h.dec.append instr).flush hsend, h.enc⟩
  cases op with
  | decWrite instr send =>
    cases hs
    exact hwrite instr send (hplain send (.head _))
  | ackInserts insertCount send =>
    cases hs
    have hsend := hplain send (.head _)
    unfold Client.qpackAckInserts
    split_ifs
    · exact { hwrite _ send hsend with }
    · exact ⟨h.dec.flush hsend, h.enc⟩
  | sectionAck streamID ric send =>
    cases hs
    exact { hwrite _ send (hplain send (.head _)) with }
  | enableEncoderDynamic capacity send =>
    simp only [step, Client.enableEncoderDynamic] at hs
    split_ifs at hs
    · cases hs
      exact h
    · rcases Option.map_eq_some_iff.mp hs with ⟨made, -, rfl⟩
      cases made with
      | error _ => exact h
      | ok e => exact hdrain e send (hplain send (.head _))
  | encodeRequestHeaders fields refused send =>
    simp only [step, Client.encodeRequestHeaders] at hs
    split at hs
    · cases hs
      exact h
    · rcases Option.map_eq_some_iff.mp hs with ⟨encoded, -, rfl⟩
      split_ifs
      · exact { h with }
      · exact hdrain _ send (hplain send (.head _))
      · exact ⟨h.dec, h.enc.append _⟩
  | readQPACKDecoder data =>
    cases hs
    exact { h with }
  | flushResidue decSend encSend =>
    cases hs
    constructor
    · unfold Client.flushResidue
      dsimp only
      split_ifs
      · exact h.dec.flush (hplain decSend (.head _))
      · exact h.dec
    · unfold Client.flushResidue
      dsimp only
      split_ifs
      · exact h.enc.flush (hplain encSend (.tail _ (.head _)))
      · exact h.enc

/-- While a send that fails accepts nothing, the bytes a stream accepted and those in its buffer
are the stream type and the instructions, and a buffer that a flush without an error left filled
is flushed again by the reader. -/
theorem instructions_once {decSend encSend : Sending} (hdec : decSend.Plain)
    (henc : encSend.Plain) {c : Client}
    (h : (system decSend encSend).ReachableBy (fun _ op => ∀ send ∈ op.sends, send.Plain) c) :
    c.dec.accepted ++ c.dec.writeBuf = streamTypeQPACKDecoder :: c.dec.instructions ∧
      c.enc.accepted ++ c.enc.writeBuf = streamTypeQPACKEncoder :: c.enc.instructions ∧
      ∀ (s : InstrStream) (send : Sending), send.failed = false → (s.flush send).writeBuf ≠ [] →
        (s.flush send).hasResidue = true := by
  have hwhole : c.Whole := by
    refine h.invariant (newClient_whole hdec henc) ?_
    intro c op c' hwhole hplain hs
    exact step_whole hwhole hplain hs
  exact ⟨hwhole.dec, hwhole.enc, fun s send => InstrStream.hasResidue_flush⟩

/-- A section is acknowledged in two sends, with a failed one between them. -/
theorem instructions_once_retried :
    ∃ c, (system ⟨1, false⟩ ⟨0, false⟩).ReachableBy (fun _ op => ∀ send ∈ op.sends, send.Plain) c ∧
      c.dec.accepted = [0x03, 0x84] ∧
      c.dec.accepted ++ c.dec.writeBuf = streamTypeQPACKDecoder :: c.dec.instructions := by
  have hrun : ∃ c, (system ⟨1, false⟩ ⟨0, false⟩).ReachableBy
      (fun _ op => ∀ send ∈ op.sends, send.Plain) c ∧ c.dec.accepted = [0x03, 0x84] := by
    apply System.exists_reachableBy [.sectionAck 4 1 ⟨0, false⟩,
      .flushResidue ⟨0, true⟩ ⟨1, false⟩, .flushResidue ⟨1, false⟩ ⟨0, false⟩]
    · apply System.runMeets_of_forall
      simp [Op.sends, Sending.Plain]
    · decide +kernel
  rcases hrun with ⟨c, hc, haccepted⟩
  exact ⟨c, hc, haccepted, (instructions_once (by decide) (by decide) hc).1⟩

/-- A cancellation of stream 4 is accepted by a send that then returns an error, and it goes out
again before the next instruction. -/
theorem failed_send_repeats :
    ∃ c, (system ⟨1, false⟩ ⟨1, false⟩).Reachable c ∧ c.dec.instructions = [0x44, 0x80] ∧
      c.dec.accepted = [0x03, 0x44, 0x44, 0x80] := by
  apply System.exists_reachable [.decWrite [0x44] ⟨1, true⟩, .sectionAck 0 0 ⟨2, false⟩]
  decide +kernel

end Http3.Instr
