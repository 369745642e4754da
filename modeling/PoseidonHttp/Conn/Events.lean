import PoseidonHttp.Frame.Types
import PoseidonHttp.Header
import PoseidonHttp.Lib.Transition

/-!
# The event channel of a stream

`deliverEnd` and `pushLocked` on the reader's side, `recv` on the consumer's, and the
goroutine that resets a stream after an overflow, as steps of one system. The reader
holds the stream's lock across its two attempts to send, but the consumer receives
without it, so it may run between them. What the peer sent and what the consumer
received are recorded.

An overflow drops the event, marks the stream closed and has it reset; until that
evicts it, frames keep arriving. `deliverEnd` does not look at `closed`:

* `gap_before_clean_end`: a frame after the dropped one is handed over once the
  consumer has made room, and the response ends cleanly with a hole in it.
* `noLoss_of_quiet`: in every run where no event is handed to a closed stream, what
  was received is an initial part of what was sent, and all of it at a clean end.
-/

namespace Conn

open Header (Bytes Field)
open Transition

/-- One observation about a stream. -/
inductive StreamEvent where
  | interimHeaders (fields : List Field) (endStream : Bool)
  | headers (fields : List Field) (endStream : Bool)
  | data (payload : Bytes) (endStream : Bool)
  | trailers (fields : List Field) (endStream : Bool)
  | reset (code : Frame.ErrCode)
  deriving DecidableEq

namespace StreamEvent

def endStream : StreamEvent → Bool
  | .interimHeaders _ e | .headers _ e | .data _ e | .trailers _ e => e
  | .reset _ => true

def isReset : StreamEvent → Bool
  | .reset _ => true
  | _ => false

/-- The event ends the response and is not a reset. -/
def clean (e : StreamEvent) : Bool := e.endStream && !e.isReset

/-- The terminal frame that carries nothing but the end. -/
def emptyEnd : StreamEvent → Bool
  | .data [] true => true
  | _ => false

/-- The payload the event carries; an empty one carries none. -/
def payload? : StreamEvent → Option Bytes
  | .data (b :: p) _ => some (b :: p)
  | _ => none

end StreamEvent

/-- The DATA payloads among some events. -/
def payloads (es : List StreamEvent) : List Bytes := es.filterMap StreamEvent.payload?

@[simp] theorem payloads_append (es es' : List StreamEvent) :
    payloads (es ++ es') = payloads es ++ payloads es' :=
  List.filterMap_append

namespace Events

/-! ## The system -/

/-- Where the reader is: between frames, or inside one that found the channel full. -/
inductive Reader where
  | idle
  /-- In `pushLocked`, about to deliver the reset. -/
  | overflowed
  /-- In `deliverEnd`, about to signal the end. -/
  | ending
  deriving DecidableEq

/-- Where the consumer is in `recv`. -/
inductive Consumer where
  | idle
  | selecting
  /-- The arm of the reset signal or the end signal, before its inner select. -/
  | resetArm
  | endArm
  deriving DecidableEq

structure Stream where
  queue : List StreamEvent
  remoteEnded : Bool
  closed : Bool
  /-- The code `signalReset` stored. -/
  resetSignal : Option Frame.ErrCode
  endSignal : Bool
  /-- The goroutine that resets the stream has been started. -/
  resetting : Bool
  registered : Bool
  reader : Reader
  consumer : Consumer
  sent : List StreamEvent
  received : List StreamEvent

inductive Op where
  /-- The next frame of the peer reaches the reader. -/
  | frame (e : StreamEvent)
  /-- The reader leaves the frame that found the channel full. -/
  | finish
  /-- The reset goroutine evicts the stream. -/
  | evict
  | recv
  /-- The consumer takes an arm of its select. -/
  | takeEvent
  | takeReset
  | takeEnd
  | takeDone
  /-- The inner select of the reset or the end arm. -/
  | drain

namespace Stream

def init : Stream :=
  ⟨[], false, false, none, false, false, true, .idle, .idle, [], []⟩

/-- A send on the channel succeeds: there is a free slot, or a receiver waits. -/
def room (capacity : ℕ) (s : Stream) : Prop :=
  s.queue.length < capacity ∨ s.queue = [] ∧ s.consumer = .selecting

instance (capacity : ℕ) (s : Stream) : Decidable (s.room capacity) :=
  inferInstanceAs (Decidable (_ ∨ _))

/-- `pushLocked` up to the second send. -/
def pushLocked (capacity : ℕ) (s : Stream) (e : StreamEvent) : Stream :=
  if s.room capacity then { s with queue := s.queue ++ [e] }
  else if s.closed then s
  else { s with closed := true, resetting := true, reader := .overflowed }

/-- `deliverEnd` up to its second send or signal. -/
def deliverEnd (capacity : ℕ) (s : Stream) (e : StreamEvent) : Stream :=
  let s := { s with remoteEnded := s.remoteEnded || e.endStream }
  if e.emptyEnd then
    if s.room capacity then { s with queue := s.queue ++ [e] } else { s with reader := .ending }
  else s.pushLocked capacity e

/-- The reader on a frame: an evicted stream is not found. -/
def frame (capacity : ℕ) (s : Stream) (e : StreamEvent) : Stream :=
  let s := { s with sent := s.sent ++ [e] }
  if s.registered then s.deliverEnd capacity e else s

/-- The rest of the reader's critical section. -/
def finish (capacity : ℕ) (s : Stream) : Stream :=
  match s.reader with
  | .idle => s
  | .overflowed =>
    if s.room capacity then
      { s with reader := .idle, queue := s.queue ++ [.reset Frame.ErrCode.cancel] }
    else { s with reader := .idle, resetSignal := s.resetSignal.or (some Frame.ErrCode.cancel) }
  | .ending => { s with reader := .idle, endSignal := true }

/-- `recv` returns an event. -/
def returns (s : Stream) (e : StreamEvent) (queue : List StreamEvent) : Stream :=
  { s with consumer := .idle, queue := queue, received := s.received ++ [e] }

/-- Buffered events first, then the signal. -/
def drain (s : Stream) (signal : StreamEvent) : Stream :=
  match s.queue with
  | e :: queue => s.returns e queue
  | [] => s.returns signal []

def step (capacity : ℕ) (s : Stream) : Op → Option Stream
  | .frame e =>
    -- the peer ends its side once and sends no reset here
    if s.reader = .idle ∧ s.sent.all (! ·.endStream) ∧ e.isReset = false then
      some (s.frame capacity e)
    else none
  | .finish => if s.reader = .idle then none else some (s.finish capacity)
  | .evict => if s.resetting then some { s with registered := false } else none
  | .recv => if s.consumer = .idle then some { s with consumer := .selecting } else none
  | .takeEvent =>
    match s.consumer, s.queue with
    | .selecting, e :: queue => some (s.returns e queue)
    | _, _ => none
  | .takeReset =>
    if s.consumer = .selecting ∧ s.resetSignal.isSome then some { s with consumer := .resetArm }
    else none
  | .takeEnd =>
    if s.consumer = .selecting ∧ s.endSignal then some { s with consumer := .endArm } else none
  | .takeDone => if s.consumer = .selecting then some { s with consumer := .idle } else none
  | .drain =>
    match s.consumer with
    | .resetArm => some (s.drain (.reset (s.resetSignal.getD Frame.ErrCode.noError)))
    | .endArm => some (s.drain (.data [] true))
    | _ => none

/-- The stream with a channel of a given capacity. -/
def system (capacity : ℕ) : System Stream Op := ⟨init, step capacity⟩

/-- Nothing is lost silently. -/
structure NoLoss (s : Stream) : Prop where
  isPrefix : payloads s.received <+: payloads s.sent
  complete : ∀ e ∈ s.received, e.clean = true → payloads s.received = payloads s.sent

/-- The step hands no event to a closed stream: the frame is the first to overflow,
or finds the channel still full and is dropped. -/
def Quiet (capacity : ℕ) (s : Stream) : Op → Prop
  | .frame e => s.registered = true → s.closed = false ∨ ¬ s.room capacity ∧ e.emptyEnd = false
  | _ => True

instance (capacity : ℕ) (s : Stream) : ∀ op, Decidable (Quiet capacity s op)
  | .frame _ => inferInstanceAs (Decidable (_ → _))
  | .finish | .evict | .recv | .takeEvent | .takeReset | .takeEnd | .takeDone | .drain =>
    isTrue trivial

/-! ## The invariant -/

/-- Events that have been handed over, received or still queued. -/
def handed (s : Stream) : List StreamEvent := s.received ++ s.queue

/-- The response can still be reported as ended. -/
def MayEnd (s : Stream) : Prop :=
  (∃ e ∈ s.handed, e.clean = true) ∨ s.endSignal = true ∨ s.reader = .ending

structure Inv (s : Stream) : Prop where
  /-- An open stream has handed over every payload. -/
  complete : s.closed = false → payloads s.handed = payloads s.sent
  /-- A closed one has handed over an initial part. -/
  isPrefix : payloads s.handed <+: payloads s.sent
  /-- An end is reported only of an open stream whose peer ended it. -/
  ended : s.MayEnd → s.closed = false ∧ ∃ e ∈ s.sent, e.endStream = true
  /-- Nothing is queued behind a received end. -/
  behind : ∀ e ∈ s.received, e.clean = true → s.queue = []
  /-- Nothing is queued behind a queued end. -/
  final : ∀ e ∈ s.queue.dropLast, e.clean = false
  overflowed : s.reader = .overflowed → s.closed = true
  /-- Only a closed stream is reset, and only a reset one evicted. -/
  resetting : s.resetting = true → s.closed = true
  evicted : s.registered = false → s.closed = true
  endArm : s.consumer = .endArm → s.endSignal = true

theorem inv_init : init.Inv := by
  refine ⟨fun _ => rfl, List.prefix_rfl, ?_, ?_, ?_, nofun, nofun, nofun, nofun⟩
  · rintro (⟨e, he, -⟩ | h | h)
    · cases he
    · cases h
    · cases h
  · intro e he
    cases he
  · intro e he
    cases he

variable {capacity : ℕ} {s : Stream} {e : StreamEvent}

theorem Inv.noLoss (h : s.Inv) : s.NoLoss := by
  refine ⟨?_, ?_⟩
  · have hpre := h.isPrefix
    rw [handed, payloads_append] at hpre
    exact (List.prefix_append _ _).trans hpre
  · intro e he hclean
    have hopen := (h.ended (.inl ⟨e, List.mem_append_left _ he, hclean⟩)).1
    have hall := h.complete hopen
    rwa [handed, h.behind e he hclean, List.append_nil] at hall

/-! ## Steps of the consumer -/

/-- Receiving a queued event moves it. -/
theorem Inv.takes (h : s.Inv) {queue : List StreamEvent} (hq : s.queue = e :: queue) :
    (s.returns e queue).Inv := by
  have hhanded : (s.returns e queue).handed = s.handed := by
    simp [handed, returns, hq]
  refine ⟨?_, ?_, ?_, ?_, ?_, h.overflowed, h.resetting, h.evicted, nofun⟩
  · rw [hhanded]
    exact h.complete
  · rw [hhanded]
    exact h.isPrefix
  · intro hmay
    refine h.ended ?_
    rwa [MayEnd, hhanded] at hmay
  · intro e' he' hclean
    rcases List.mem_append.mp he' with hold | hnew
    · -- an end received earlier left nothing to take
      exact absurd (h.behind e' hold hclean) (by simp [hq])
    · rw [List.mem_singleton.mp hnew] at hclean
      rcases queue with _ | ⟨e₂, queue⟩
      · rfl
      · have := h.final e (by simp [hq])
        rw [this] at hclean
        cases hclean
  · intro e' he'
    refine h.final e' ?_
    rcases queue with _ | ⟨e₂, queue⟩
    · cases he'
    · rw [hq]
      exact List.mem_cons_of_mem e he'

/-- Reporting a signal with nothing queued. -/
theorem Inv.signals (h : s.Inv) (hq : s.queue = []) (hpay : e.payload? = none)
    (hclean : e.clean = true → s.MayEnd) : (s.returns e []).Inv := by
  have hhanded : (s.returns e []).handed = s.handed ++ [e] := by
    simp [handed, returns, hq]
  have hsame : payloads (s.returns e []).handed = payloads s.handed := by
    simp [hhanded, payloads, hpay]
  refine ⟨?_, ?_, ?_, fun _ _ _ => rfl, ?_, h.overflowed, h.resetting, h.evicted, nofun⟩
  · rw [hsame]
    exact h.complete
  · rw [hsame]
    exact h.isPrefix
  · rintro (⟨e', he', hc⟩ | hsig)
    · rw [hhanded] at he'
      rcases List.mem_append.mp he' with hold | hnew
      · exact h.ended (.inl ⟨e', hold, hc⟩)
      · rw [List.mem_singleton.mp hnew] at hc
        exact h.ended (hclean hc)
    · exact h.ended (.inr hsig)
  · intro e' he'
    cases he'

theorem Inv.drain (h : s.Inv) (hpay : e.payload? = none) (hclean : e.clean = true → s.MayEnd) :
    (s.drain e).Inv := by
  unfold Stream.drain
  split
  · rename_i hq
    exact h.takes hq
  · rename_i hq
    exact h.signals hq hpay hclean

/-! ## Steps of the reader -/

/-- While the peer has not ended the stream, no end can be reported. -/
theorem Inv.not_mayEnd (h : s.Inv) (hsent : s.sent.all (! ·.endStream) = true) : ¬ s.MayEnd := by
  intro hmay
  obtain ⟨-, e, he, hend⟩ := h.ended hmay
  have := List.all_eq_true.mp hsent e he
  simp [hend] at this

/-- A payload more was sent. -/
theorem payloads_concat (es : List StreamEvent) (e : StreamEvent) :
    payloads (es ++ [e]) = payloads es ++ e.payload?.toList := by
  cases hp : e.payload? <;> simp [payloads, hp]

/-- A frame is handed to an open stream. -/
theorem Inv.push (h : s.Inv) (hsent : s.sent.all (! ·.endStream) = true)
    (hopen : s.closed = false) (b : Bool) :
    { s with sent := s.sent ++ [e], remoteEnded := b, queue := s.queue ++ [e] }.Inv := by
  have hmay := h.not_mayEnd hsent
  have hclean : ∀ e' ∈ s.handed, e'.clean = false := by
    intro e' he'
    by_contra hc
    exact hmay (.inl ⟨e', he', by simpa using hc⟩)
  have hall : payloads (s.received ++ (s.queue ++ [e])) = payloads (s.sent ++ [e]) := by
    rw [← List.append_assoc, payloads_concat, payloads_concat]
    exact congrArg (· ++ _) (h.complete hopen)
  refine ⟨fun _ => hall, hall ▸ List.prefix_rfl, ?_, ?_, ?_, h.overflowed,
    h.resetting, h.evicted, h.endArm⟩
  · -- the only end there can be is this frame
    rintro (⟨e', he', hc⟩ | hsig)
    · refine ⟨hopen, e, by simp, ?_⟩
      have hin : e' ∈ s.handed ++ [e] := by simpa [handed] using he'
      rcases List.mem_append.mp hin with hold | hnew
      · rw [hclean e' hold] at hc
        cases hc
      · rw [List.mem_singleton.mp hnew, StreamEvent.clean, Bool.and_eq_true] at hc
        exact hc.1
    · exact absurd (.inr hsig) hmay
  · intro e' he' hc
    rw [hclean e' (List.mem_append_left _ he')] at hc
    cases hc
  · intro e' he'
    rw [List.dropLast_concat] at he'
    exact hclean e' (List.mem_append_right _ he')

/-- A frame is lost, and with it the claim to have handed over everything. -/
theorem Inv.drop (h : s.Inv) (hsent : s.sent.all (! ·.endStream) = true) (b c : Bool)
    {r : Reader} (hr : r ≠ .ending) :
    { s with sent := s.sent ++ [e], remoteEnded := b, closed := true, resetting := c,
             reader := r }.Inv := by
  have hmay := h.not_mayEnd hsent
  refine ⟨fun hc => ?_, ?_, ?_, h.behind, h.final, fun _ => rfl, fun _ => rfl,
    fun _ => rfl, h.endArm⟩
  · cases hc
  · exact h.isPrefix.trans (by simp)
  · rintro (hev | hsig | hr')
    · exact absurd (.inl hev) hmay
    · exact absurd (.inr (.inl hsig)) hmay
    · exact absurd hr' hr

/-- The empty end of an open stream finds no room. -/
theorem Inv.ending (h : s.Inv) (hopen : s.closed = false) (hend : e.emptyEnd = true) (b : Bool) :
    { s with sent := s.sent ++ [e], remoteEnded := b, reader := .ending }.Inv := by
  have he : e.payload? = none ∧ e.endStream = true := by
    unfold StreamEvent.emptyEnd at hend
    split at hend
    · exact ⟨rfl, rfl⟩
    · cases hend
  have hall : payloads s.handed = payloads (s.sent ++ [e]) := by
    rw [payloads_concat, he.1]
    simpa using h.complete hopen
  refine ⟨fun _ => hall, hall ▸ List.prefix_rfl, ?_, h.behind, h.final, nofun, h.resetting,
    h.evicted, h.endArm⟩
  intro _
  exact ⟨hopen, e, by simp, he.2⟩

/-- A frame for a stream that is no longer registered. -/
theorem Inv.discard (h : s.Inv) (hclosed : s.closed = true) :
    { s with sent := s.sent ++ [e] }.Inv := by
  refine { h with complete := fun hc => ?_, isPrefix := h.isPrefix.trans (by simp), ended := ?_ }
  · rw [hclosed] at hc
    cases hc
  · intro hmay
    have := (h.ended hmay).1
    rw [hclosed] at this
    cases this

/-- What the reader does with a frame of a registered stream. -/
theorem frame_eq (hreg : s.registered = true) : s.frame capacity e =
    if s.room capacity then
      { s with sent := s.sent ++ [e], remoteEnded := s.remoteEnded || e.endStream
               queue := s.queue ++ [e] }
    else if e.emptyEnd then
      { s with sent := s.sent ++ [e], remoteEnded := s.remoteEnded || e.endStream
               reader := .ending }
    else if s.closed then
      { s with sent := s.sent ++ [e], remoteEnded := s.remoteEnded || e.endStream }
    else
      { s with sent := s.sent ++ [e], remoteEnded := s.remoteEnded || e.endStream
               closed := true, resetting := true, reader := .overflowed } := by
  simp only [Stream.frame, deliverEnd, pushLocked, hreg, if_true, room]
  cases e.emptyEnd <;> simp only [if_true, if_false, Bool.false_eq_true]

theorem Inv.frame (h : s.Inv) (hsent : s.sent.all (! ·.endStream) = true)
    (hidle : s.reader = .idle) (hquiet : Quiet capacity s (.frame e)) :
    (s.frame capacity e).Inv := by
  by_cases hreg : s.registered = true
  · rw [frame_eq hreg]
    split_ifs with hroom hend hclosed
    · -- the frame is queued, so the stream is open
      rcases hquiet hreg with hopen | ⟨hfull, -⟩
      · exact h.push hsent hopen _
      · exact absurd hroom hfull
    · rcases hquiet hreg with hopen | ⟨-, hne⟩
      · exact h.ending hopen hend _
      · rw [hend] at hne
        cases hne
    · have hdrop := @Inv.drop s e h hsent (s.remoteEnded || e.endStream) s.resetting s.reader
        (by simp [hidle])
      rwa [← hclosed] at hdrop
    · exact h.drop hsent _ true (by simp)
  · have hskip : s.frame capacity e = { s with sent := s.sent ++ [e] } := by
      simp [Stream.frame, hreg]
    rw [hskip]
    exact h.discard (h.evicted (by simpa using hreg))

theorem Inv.finish (h : s.Inv) : (s.finish capacity).Inv := by
  unfold Stream.finish
  cases hr : s.reader with
  | idle => exact h
  | overflowed =>
    have hclosed := h.overflowed hr
    have hopen : s.closed ≠ false := by simp [hclosed]
    have hmay : ¬ s.MayEnd := fun hmay => hopen (h.ended hmay).1
    have hsignal : ¬ (s.endSignal = true ∨ Reader.idle = .ending) := by
      rintro (hsig | hidle)
      · exact hmay (.inr (.inl hsig))
      · cases hidle
    simp only
    split
    · -- the consumer made room for the reset
      have hlist : s.received ++ (s.queue ++ [.reset Frame.ErrCode.cancel]) =
          s.handed ++ [.reset Frame.ErrCode.cancel] := by simp [handed]
      refine { h with complete := fun hc => absurd hc hopen, isPrefix := ?_, ended := ?_,
                      behind := ?_, final := ?_, overflowed := nofun }
      · simp only [handed, hlist, payloads_concat, StreamEvent.payload?, Option.toList_none,
          List.append_nil]
        exact h.isPrefix
      · rintro (⟨e, he, hc⟩ | hsig)
        · simp only [handed, hlist] at he
          rcases List.mem_append.mp he with hold | hnew
          · exact absurd (.inl ⟨e, hold, hc⟩) hmay
          · rw [List.mem_singleton.mp hnew] at hc
            cases hc
        · exact absurd hsig hsignal
      · intro e he hc
        exact absurd (.inl ⟨e, List.mem_append_left _ he, hc⟩) hmay
      · intro e he
        simp only [List.dropLast_concat] at he
        by_contra hc
        exact hmay (.inl ⟨e, List.mem_append_right _ he, by simpa using hc⟩)
    · refine { h with ended := ?_, overflowed := nofun }
      rintro (hev | hsig)
      · exact absurd (.inl hev) hmay
      · exact absurd hsig hsignal
  | ending =>
    refine { h with ended := ?_, overflowed := nofun, endArm := fun _ => rfl }
    intro _
    exact h.ended (.inr (.inr hr))

theorem Inv.step {s' : Stream} {op : Op} (h : s.Inv) (hquiet : Quiet capacity s op)
    (hs : s.step capacity op = some s') : s'.Inv := by
  cases op with
  | frame e =>
    simp only [Stream.step, Transition.guarded] at hs
    obtain ⟨⟨hidle, hsent, -⟩, rfl⟩ := hs
    exact h.frame hsent hidle hquiet
  | finish =>
    simp only [Stream.step, Option.ite_none_left_eq_some, Option.some.injEq] at hs
    obtain ⟨-, rfl⟩ := hs
    exact h.finish
  | evict =>
    simp only [Stream.step, Transition.guarded] at hs
    obtain ⟨hreset, rfl⟩ := hs
    exact { h with evicted := fun _ => h.resetting hreset }
  | recv | takeReset | takeDone =>
    simp only [Stream.step, Transition.guarded] at hs
    obtain ⟨-, rfl⟩ := hs
    exact { h with endArm := nofun }
  | takeEvent =>
    simp only [Stream.step] at hs
    split at hs
    · rename_i hq
      obtain rfl := Option.some.inj hs
      exact h.takes hq
    · cases hs
  | takeEnd =>
    simp only [Stream.step, Transition.guarded] at hs
    obtain ⟨⟨-, hsig⟩, rfl⟩ := hs
    exact { h with endArm := fun _ => hsig }
  | drain =>
    simp only [Stream.step] at hs
    split at hs
    · obtain rfl := Option.some.inj hs
      exact h.drain rfl nofun
    · rename_i hc
      obtain rfl := Option.some.inj hs
      exact h.drain rfl fun _ => .inr (.inl (h.endArm hc))
    · cases hs

/-! ## Main results -/

/-- In every run that hands no event to a closed stream, nothing is lost silently. -/
theorem noLoss_of_quiet (capacity : ℕ) {s : Stream}
    (h : (system capacity).ReachableBy (Quiet capacity) s) : s.NoLoss :=
  Inv.noLoss <| h.invariant inv_init fun _ _ _ hinv hquiet hs => hinv.step hquiet hs

/-- One slot, and an end the channel has no room for. -/
def endSignalRun : List Op :=
  [.frame (.data [1] false), .frame (.data [] true), .finish, .recv, .takeEvent, .recv, .takeEnd,
    .drain]

theorem noLoss_of_quiet_endSignalRun :
    ∃ s, (system 1).run init endSignalRun = some s ∧
      s.received = [.data [1] false, .data [] true] ∧ s.NoLoss := by
  have hmeets : (system 1).RunMeets (Quiet 1) init endSignalRun := by decide +kernel
  apply System.exists_run_known endSignalRun
  · intro s hs
    exact noLoss_of_quiet 1 (System.reachableBy_run .init hmeets hs)
  · decide +kernel

/-- One slot: a frame overflows, the consumer makes room, and the last frame arrives
before the reset evicts the stream. -/
def gapRun : List Op :=
  [.frame (.data [1] false), .frame (.data [2] false), .finish, .recv, .takeEvent,
    .frame (.data [3] true), .recv, .takeEvent]

/-- The consumer is told that the response is complete, and it is not. -/
theorem gap_before_clean_end :
    ∃ s, (system 1).Reachable s ∧
      payloads s.sent = [[1], [2], [3]] ∧ s.received = [.data [1] false, .data [3] true] ∧
      ¬ s.NoLoss := by
  have hrun : ∃ s, (system 1).Reachable s ∧ payloads s.sent = [[1], [2], [3]] ∧
      s.received = [.data [1] false, .data [3] true] := by
    apply System.exists_reachable gapRun
    decide +kernel
  obtain ⟨s, hs, hsent, hrec⟩ := hrun
  refine ⟨s, hs, hsent, hrec, ?_⟩
  intro h
  have hpre := h.isPrefix
  rw [hsent, hrec] at hpre
  exact absurd hpre (by decide)

end Stream

end Events

end Conn
