import PoseidonHttp.Conn.Handler

/-!
# What the reader has checked of an event

`checked` is about one event at a time. It holds of every event that the reader hands to a stream,
and so of those that are left when the channel of a slow consumer drops some. Push is off.
-/

open Frame (ErrCode)

namespace Conn.Handler

open Header (Bytes Field)
open Transition

/-- A block has passed the validation for its place in the response, an interim response does not
end the stream, and trailers do. -/
def checked : StreamEvent → Bool
  | .interimHeaders fields endStream =>
    !endStream && validateResponseFields false fields && isInformationalStatus fields
  | .headers fields _ => validateResponseFields false fields && !isInformationalStatus fields
  | .trailers fields endStream => endStream && validateResponseFields true fields
  | .data _ _ | .reset _ => true

namespace Stream

variable {t t' : Stream} {e : StreamEvent} {fields : List Field} {endStream : Bool}

def Checks (t : Stream) : Prop := ∀ e ∈ t.events, checked e = true

/-- The events of a stream that is about to be reset. -/
def Faulty (t : Stream) : Prop := t.registered = true ∧ t.Checks

theorem Checks.congr (h : t.Checks) (hevents : t'.events = t.events) : t'.Checks := by
  intro e he
  exact h e (hevents ▸ he)

theorem Checks.of_events (h : t.Checks) (he : checked e = true)
    (hevents : t'.events = t.events ++ [e]) : t'.Checks := by
  intro d hd
  rw [hevents, List.mem_append, List.mem_singleton] at hd
  rcases hd with hd | rfl
  · exact h d hd
  · exact he

theorem Checks.markStreamDone (h : t.Checks) : t.markStreamDone.Checks := by
  unfold Stream.markStreamDone
  split_ifs <;> exact h

theorem Checks.handOver (h : t.Checks) (he : checked e = true) :
    (t.handOver e endStream).Checks := by
  have hdeliver : (t.deliverEnd e endStream).Checks := h.of_events he rfl
  unfold Stream.handOver
  split_ifs
  · exact hdeliver.markStreamDone
  · exact hdeliver

/-- The class of a block is the one it was validated for. -/
theorem classifyHeaderBlock_checked {event : List Field → Bool → StreamEvent}
    (hvalid : validateResponseFields t.headersReceived fields = true)
    (hclass : t.classifyHeaderBlock fields endStream = (t', .ok event)) :
    checked (event fields endStream) = true := by
  unfold classifyHeaderBlock at hclass
  dsimp only at hclass
  split_ifs at hclass with hreceived hended hinterim <;> cases hclass <;>
    simp_all [checked]

/-- A fault leaves the events as they were. -/
theorem Checks.faulty (h : t.Checks) (hreg : t.registered = true) (hsame : t.Same t') :
    t'.Faulty :=
  ⟨hsame.registered.trans hreg, h.congr hsame.events⟩

theorem emitHeaderBlock_checks (h : t.Checks) (hreg : t.registered = true) (fields : List Field)
    (endStream : Bool) : Settles Checks Faulty (t.emitHeaderBlock fields endStream) := by
  rcases emitHeaderBlock_cases t fields endStream with
    ⟨t', code, hr, hsame⟩ | ⟨t', event, hr, hsame, hvalid, hclass⟩ <;> rw [hr]
  · exact h.faulty hreg hsame
  · exact (h.congr hsame.events).handOver (classifyHeaderBlock_checked hvalid hclass)

theorem onData_checks (h : t.Checks) (hreg : t.registered = true) (payload : Bytes)
    (endStream : Bool) : Settles Checks Faulty (t.onData payload endStream) := by
  rcases onData_cases t payload endStream with ⟨t', code, hr, hsame⟩ | ⟨-, hr⟩ <;> rw [hr]
  · exact h.faulty hreg hsame
  · exact Checks.handOver (h.congr rfl) rfl

theorem checks_rules : StreamRules False (fun _ => Checks) Faulty where
  absent _ he := absurd he List.not_mem_nil
  opened _ _ _ he := absurd he List.not_mem_nil
  endLocal _ _ h := h
  retire _ _ h := h.markStreamDone
  block _ fields endStream h hreg _ := emitHeaderBlock_checks h hreg fields endStream
  data _ payload endStream h hreg _ := onData_checks h hreg payload endStream
  fault _ h hreg := ⟨hreg, h⟩
  registered _ h := h.1
  rst _ _ h _ := Checks.markStreamDone (h.of_events rfl rfl)
  reset _ _ _ h _ := h.2.of_events rfl rfl
  shutdown _ h _ := h.of_events rfl rfl
  gone _ h := h

end Stream

/-- Whatever HEADERS, CONTINUATION, DATA and RST_STREAM frames the peer sends, every event that a
stream gets is checked. -/
theorem checked_of_reachable {dec : Hpack.Decoder} {maxHeaderBytes : ℕ} {s : State}
    (h : (system dec maxHeaderBytes).Reachable s) (id : ℕ) :
    ∀ e ∈ (s.stream id).events, checked e = true :=
  Stream.checks_rules.reachable (fun _ _ _ hf => hf.elim) h id

theorem checked_of_responseRun :
    ∃ s, (system .new 8388608).run (system .new 8388608).init responseRun = some s ∧
      (s.stream 1).events.length = 5 ∧ ∀ e ∈ (s.stream 1).events, checked e = true := by
  apply System.exists_run_known responseRun
  · intro s hs
    exact checked_of_reachable (System.reachable_of_run hs) 1
  · decide +kernel

end Conn.Handler
