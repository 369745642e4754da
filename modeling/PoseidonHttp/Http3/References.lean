import PoseidonHttp.Http3.Streaming

/-!
# Releasing the server's table

A section that refers to the dynamic table pins entries of the server until the client answers it,
with a Section Acknowledgment or by cancelling the stream. `ackDynamicSection` acknowledges what was
decoded and notes in `refDynamic` that the stream has referred to the table; every exit with an error
(`roundTrip`, `roundTripStream`, `BodyReader.abort`) cancels the stream when that is noted.

The note is taken too late. A section that is refused, or still waits for its inserts when the
context ends, has referred to the table as well.

* `released_iff`: at the end of an exchange everything is released, or the connection closed, exactly
  when the first section that refers to the table is accepted, or the connection closed.
* `refused_section_pinned`: a malformed section with a reference, and nothing is sent for it.
-/

namespace Http3

open Header (Bytes Field ascii)
open Growth (Allocator Buf)

/-! ## What is to be released -/

/-- The Required Insert Counts of the sections that have one. -/
def dynamicSections (started : List Section) : List ℕ := (started.map Section.ric).filter (0 < ·)

/-- What the Section Acknowledgments are for, in their order. -/
def ackedSections (sent : List Instruction) : List ℕ :=
  sent.filterMap fun
    | .sectionAck ric => some ric
    | .streamCancellation => none

/-- Every section that refers to the table has its acknowledgment, or the stream is cancelled. -/
def Released (rb : RespBuilder) : Prop :=
  .streamCancellation ∈ rb.sent ∨ ackedSections rb.sent = dynamicSections rb.started

/-- The whole connection was closed. -/
def Closed : Option Err → Prop
  | some (.conn _) => True
  | some (.wait .connection) => True
  | _ => False

/-! ## The exchanges that have ended -/

/-- Calls of `Next` that return, and of `Close`, in any order. -/
inductive Uses (a : Allocator) (c : Client) (method : Bytes) (start : BodyReader × List Poll) :
    BodyReader × List Poll → Prop
  | start : Uses a c method start start
  | next {r : BodyReader} {ps : List Poll} {turns : ℕ} {out : BodyReader × List Poll}
      {e : Except Err BodyEvent} (h : Uses a c method start (r, ps))
      (hnext : r.next a c method turns ps = (out, some e)) : Uses a c method start out
  | close {r : BodyReader} {ps : List Poll} (h : Uses a c method start (r, ps)) :
      Uses a c method start (r.close, ps)

/-- An exchange that has ended: `Do`, a `DoStream` that fails, or one whose reader has come to its
end, by an event, an error or `Close`. -/
inductive Ended (a : Allocator) (c : Client) (method : Bytes) : RespBuilder → Option Err → Prop
  | failed {capacity : ℕ} {ps : List Poll} {rb : RespBuilder} {e : Err}
      (h : roundTrip a c capacity method ps = (rb, some (.error e))) : Ended a c method rb (some e)
  | done {capacity : ℕ} {ps : List Poll} {rb : RespBuilder} {r : Response × Bytes}
      (h : roundTrip a c capacity method ps = (rb, some (.ok r))) : Ended a c method rb none
  | refused {ps : List Poll} {rb : RespBuilder} {e : Err}
      (h : roundTripStream a c ps = (rb, some (.error e))) : Ended a c method rb (some e)
  | read {ps rest : List Poll} {rb : RespBuilder} {start : BodyReader × List Poll} {r : BodyReader}
      (h : roundTripStream a c ps = (rb, some (.ok start))) (huses : Uses a c method start (r, rest))
      (hdone : r.done = true) : Ended a c method r.rb r.err

/-! ## Sections where they stand -/

namespace Section

/-- A final response. -/
def isFinal (sec : Section) : Bool :=
  match sec.fields with
  | .error _ => false
  | .ok fields => (decodeResponseHeaders fields).any fun h => 200 ≤ h.status

/-- The section is decoded and well-formed, as a response or, after the final one, as trailers. -/
def accepted (afterFinal : Bool) (sec : Section) : Bool :=
  match sec.fields with
  | .error _ => false
  | .ok fields =>
    if afterFinal then (decodeTrailers fields).isSome else (decodeResponseHeaders fields).isSome

end Section

/-- Of the sections that were started, the first that refers to the table is accepted. -/
def firstAccepted : Bool → List Section → Bool
  | _, [] => true
  | afterFinal, sec :: rest =>
    if sec.ric = 0 then firstAccepted (afterFinal || sec.isFinal) rest else sec.accepted afterFinal

section Lists

variable {started : List Section} {sent : List Instruction} {sec : Section} {afterFinal : Bool}

theorem dynamicSections_append (started : List Section) (sec : Section) :
    dynamicSections (started ++ [sec]) =
      dynamicSections started ++ if sec.ric = 0 then [] else [sec.ric] := by
  rw [dynamicSections, dynamicSections, List.map_append]
  split_ifs with hric
  · simp [hric]
  · simp [Nat.pos_of_ne_zero hric]

theorem ackedSections_append (sent : List Instruction) (i : Instruction) :
    ackedSections (sent ++ [i]) = ackedSections sent ++ ackedSections [i] := List.filterMap_append

/-- Behind a section that refers to the table, one more does not matter. -/
theorem firstAccepted_append (h : dynamicSections started ≠ []) (sec : Section) :
    firstAccepted afterFinal (started ++ [sec]) = firstAccepted afterFinal started := by
  induction started generalizing afterFinal with
  | nil => exact absurd rfl h
  | cons s rest ih =>
    rw [List.cons_append, firstAccepted, firstAccepted]
    split_ifs with hric
    · refine ih ?_
      intro hnone
      refine h ?_
      rw [dynamicSections] at hnone ⊢
      simpa [hric] using hnone
    · rfl

/-- The first that refers to the table is looked at where it stands. -/
theorem firstAccepted_append_first (h : dynamicSections started = []) (sec : Section) :
    firstAccepted afterFinal (started ++ [sec]) =
      (sec.ric == 0 || sec.accepted (afterFinal || started.any Section.isFinal)) := by
  induction started generalizing afterFinal with
  | nil =>
    rw [List.nil_append, firstAccepted, List.any_nil]
    split_ifs with hric
    · simp [hric, firstAccepted]
    · simp [hric]
  | cons s rest ih =>
    have hric : s.ric = 0 := by
      by_contra hne
      simp [dynamicSections, Nat.pos_of_ne_zero hne] at h
    have hrest : dynamicSections rest = [] := by
      simpa [dynamicSections, hric] using h
    rw [List.cons_append, firstAccepted, if_pos hric, ih hrest, List.any_cons, Bool.or_assoc]

end Lists

/-! ## The builder -/

/-- Nothing was refused so far: what refers to the table is acknowledged, and noted. -/
structure Clean (rb : RespBuilder) : Prop where
  acked : ackedSections rb.sent = dynamicSections rb.started
  uncancelled : .streamCancellation ∉ rb.sent
  noted : rb.refDynamic = true ↔ dynamicSections rb.started ≠ []
  place : rb.resp.isSome = rb.started.any Section.isFinal
  first : firstAccepted false rb.started = true

/-- The last section that was started was refused. -/
def Broken (rb : RespBuilder) : Prop :=
  ∃ rb₀ sec, Clean rb₀ ∧ rb.started = rb₀.started ++ [sec] ∧ rb.sent = rb₀.sent ∧
    rb.refDynamic = rb₀.refDynamic ∧ sec.accepted (rb₀.started.any Section.isFinal) = false

/-- At the end, what the result says. -/
def Settled (rb : RespBuilder) : Prop := Released rb ↔ firstAccepted false rb.started = true

/-- What a step leaves: a clean builder, or a refused section when it fails. -/
def Leaves (rb : RespBuilder) (failed : Prop) : Prop := Clean rb ∨ Broken rb ∧ failed

section Builder

variable {c : Client} {rb rb' : RespBuilder} {sec : Section} {f : Frame} {payload : Bytes}
  {onData untilResponse : Bool} {failed failed' : Prop}

theorem Leaves.clean (h : Leaves rb failed) (hok : ¬ failed) : Clean rb :=
  h.resolve_right fun hbroken => hok hbroken.2

theorem Leaves.mono (h : Leaves rb failed) (himp : failed → failed') : Leaves rb failed' :=
  Or.imp_right (And.imp_right himp) h

theorem clean_init : Clean {} := by
  refine ⟨rfl, nofun, ?_, rfl, rfl⟩
  simp [dynamicSections]

theorem Clean.of_same (h : Clean rb) (hsent : rb'.sent = rb.sent) (hstarted : rb'.started = rb.started)
    (href : rb'.refDynamic = rb.refDynamic) (hresp : rb'.resp = rb.resp) : Clean rb' := by
  refine ⟨?_, ?_, ?_, ?_, ?_⟩
  · rw [hsent, hstarted, h.acked]
  · rw [hsent]
    exact h.uncancelled
  · rw [href, hstarted]
    exact h.noted
  · rw [hresp, hstarted, h.place]
  · rw [hstarted]
    exact h.first

theorem ackDynamicSection_started (rb : RespBuilder) (n : ℕ) :
    (rb.ackDynamicSection n).started = rb.started := by
  unfold RespBuilder.ackDynamicSection
  split_ifs <;> rfl

theorem ackDynamicSection_resp (rb : RespBuilder) (n : ℕ) : (rb.ackDynamicSection n).resp = rb.resp := by
  unfold RespBuilder.ackDynamicSection
  split_ifs <;> rfl

/-- The acknowledgment does not look at what was started. -/
theorem ackDynamicSection_start (rb : RespBuilder) (started : List Section) (n : ℕ) :
    (RespBuilder.ackDynamicSection { rb with started } n).sent = (rb.ackDynamicSection n).sent ∧
      (RespBuilder.ackDynamicSection { rb with started } n).refDynamic =
        (rb.ackDynamicSection n).refDynamic := by
  unfold RespBuilder.ackDynamicSection
  split_ifs <;> exact ⟨rfl, rfl⟩

section Clean

variable (h : Clean rb)

include h

/-- An accepted section is acknowledged and noted. -/
theorem Clean.accept (hsec : sec.accepted (rb.started.any Section.isFinal) = true)
    (hstarted : rb'.started = rb.started ++ [sec])
    (hack : rb'.sent = (rb.ackDynamicSection sec.ric).sent ∧
      rb'.refDynamic = (rb.ackDynamicSection sec.ric).refDynamic)
    (hresp : rb'.resp.isSome = (rb.resp.isSome || sec.isFinal)) : Clean rb' := by
  have hfirst : firstAccepted false (rb.started ++ [sec]) = true := by
    by_cases hnone : dynamicSections rb.started = []
    · rw [firstAccepted_append_first hnone, Bool.false_or, hsec, Bool.or_true]
    · rw [firstAccepted_append hnone]
      exact h.first
  have hplace : rb'.resp.isSome = rb'.started.any Section.isFinal := by
    rw [hresp, hstarted, h.place, List.any_append, List.any_cons, List.any_nil, Bool.or_false]
  obtain ⟨hsent, href⟩ := hack
  unfold RespBuilder.ackDynamicSection at hsent href
  split_ifs at hsent href with hric
  · have hsame : dynamicSections rb'.started = dynamicSections rb.started := by
      rw [hstarted, dynamicSections_append, if_pos hric, List.append_nil]
    refine ⟨?_, ?_, ?_, hplace, hstarted ▸ hfirst⟩
    · rw [hsent, hsame, h.acked]
    · rw [hsent]
      exact h.uncancelled
    · rw [href, hsame]
      exact h.noted
  · have hmore : dynamicSections rb'.started = dynamicSections rb.started ++ [sec.ric] := by
      rw [hstarted, dynamicSections_append, if_neg hric]
    refine ⟨?_, ?_, ?_, hplace, hstarted ▸ hfirst⟩
    · rw [hsent, hmore, ackedSections_append, h.acked]
      rfl
    · rw [hsent]
      intro hmem
      rcases List.mem_append.mp hmem with hmem | hmem
      · exact h.uncancelled hmem
      · cases List.mem_singleton.mp hmem
    · rw [href, hmore]
      simp

/-- A section that was not accepted leaves only its trace. -/
theorem Clean.refuse (hsec : sec.accepted (rb.started.any Section.isFinal) = false) :
    Broken { rb with started := rb.started ++ [sec] } :=
  ⟨rb, sec, h, rfl, rfl, rfl, hsec⟩

theorem Clean.accepted_eq {fields : List Field} (hfields : sec.fields = .ok fields) :
    sec.accepted (rb.started.any Section.isFinal) =
      if rb.resp.isSome then (decodeTrailers fields).isSome
      else (decodeResponseHeaders fields).isSome := by
  rw [Section.accepted, hfields, h.place]

theorem Clean.onResponse (hresp : rb.resp = none) :
    Leaves ({ rb with started := rb.started ++ [sec] }.onResponse sec).1
      (({ rb with started := rb.started ++ [sec] }.onResponse sec).2.isSome = true) := by
  unfold RespBuilder.onResponse
  cases hfields : sec.fields with
  | error e => exact .inr ⟨h.refuse (by rw [Section.accepted, hfields]), rfl⟩
  | ok fields =>
    have hsec := h.accepted_eq hfields
    simp only [hresp, Option.isSome_none, Bool.false_eq_true, if_false] at hsec
    dsimp only
    cases hhead : decodeResponseHeaders fields with
    | none => exact .inr ⟨h.refuse (hsec.trans (by rw [hhead]; rfl)), rfl⟩
    | some head =>
      rw [hhead] at hsec
      have hfinal : sec.isFinal = decide (200 ≤ head.status) := by
        rw [Section.isFinal, hfields]
        dsimp only
        rw [hhead]
        rfl
      left
      dsimp only
      split_ifs with hlow hmany <;>
        refine h.accept hsec (ackDynamicSection_started _ _) (ackDynamicSection_start rb _ _) ?_
      · simp [ackDynamicSection_resp, hfinal, hresp, hlow]
      · simp [ackDynamicSection_resp, hfinal, hresp, hlow]
      · simp [hfinal, Nat.not_lt.mp hlow]

theorem Clean.onTrailers {r : Response} (hresp : rb.resp = some r) :
    Leaves ({ rb with started := rb.started ++ [sec] }.onTrailers r sec).1
      (({ rb with started := rb.started ++ [sec] }.onTrailers r sec).2.isSome = true) := by
  unfold RespBuilder.onTrailers
  cases hfields : sec.fields with
  | error e => exact .inr ⟨h.refuse (by rw [Section.accepted, hfields]), rfl⟩
  | ok fields =>
    have hsec := h.accepted_eq hfields
    simp only [hresp, Option.isSome_some, if_true] at hsec
    dsimp only
    cases htrailers : decodeTrailers fields with
    | none => exact .inr ⟨h.refuse (hsec.trans (by rw [htrailers]; rfl)), rfl⟩
    | some trailers =>
      rw [htrailers] at hsec
      refine .inl (h.accept hsec (ackDynamicSection_started _ _) (ackDynamicSection_start rb _ _) ?_)
      simp [hresp]

theorem Clean.onHeaders (c : Client) (payload : Bytes) :
    Leaves (rb.onHeaders c payload).1 ((rb.onHeaders c payload).2.isSome = true) := by
  have htotal : Clean { rb with total := rb.total + payload.length } := h.of_same rfl rfl rfl rfl
  unfold RespBuilder.onHeaders
  dsimp only
  split_ifs
  · exact .inl h
  · exact .inl htotal
  · split
    · rename_i hresp
      exact htotal.onResponse hresp
    · rename_i r hresp
      exact htotal.onTrailers hresp

/-- A frame is taken and the builder stays clean, or it is refused. -/
theorem Clean.dispatchFrame (c : Client) (onData : Bool) (f : Frame) :
    Leaves (c.dispatchFrame onData rb f).1 (∃ e, (c.dispatchFrame onData rb f).2 = .error e) := by
  unfold Client.dispatchFrame
  cases f.kind with
  | ignored | refused => exact .inl h
  | data =>
    dsimp only [RespBuilder.onDataFrame]
    split_ifs <;> exact .inl (h.of_same rfl rfl rfl rfl)
  | headers =>
    have hheaders := h.onHeaders c f.payload
    generalize rb.onHeaders c f.payload = out at hheaders ⊢
    rcases out with ⟨rb₁, _ | e⟩
    · exact .inl (hheaders.clean (by simp))
    · exact hheaders.mono fun _ => ⟨e, rfl⟩

end Clean

theorem Clean.consumeFrom {fr : FrameReader} {turns : ℕ} (h : Clean rb) :
    Leaves (c.consumeFrom onData untilResponse turns fr rb).1.2
      ((c.consumeFrom onData untilResponse turns fr rb).2.isSome = true) := by
  induction turns generalizing fr rb with
  | zero => exact .inl h
  | succ turns ih =>
    rw [Client.consumeFrom]
    split_ifs
    · exact .inl h
    rcases fr.readFrame with ⟨fr', (_ | _) | f⟩
    · exact .inl h
    · exact .inl h
    · have hdispatch := h.dispatchFrame c onData f
      dsimp only
      generalize c.dispatchFrame onData rb f = out at hdispatch ⊢
      rcases out with ⟨rb₁, e | d⟩
      · exact hdispatch.mono fun _ => rfl
      · exact ih (hdispatch.clean (by simp))

/-- Cancelling settles what was left open, if it was noted that there is something. -/
theorem settled_cancelOnError (h : Clean rb ∨ Broken rb) : Settled rb.cancelOnError := by
  unfold Settled RespBuilder.cancelOnError
  rcases h with h | ⟨rb₀, sec, h, hstarted, hsent, href, hsec⟩
  · split_ifs
    · exact ⟨fun _ => h.first, fun _ => .inl (by simp)⟩
    · exact ⟨fun _ => h.first, fun _ => .inr h.acked⟩
  rw [href]
  split_ifs with hnoted
  · have hfirst : firstAccepted false rb.started = true := by
      rw [hstarted, firstAccepted_append (h.noted.mp hnoted)]
      exact h.first
    exact ⟨fun _ => hfirst, fun _ => .inl (by simp)⟩
  · -- nothing was noted: only a section without references is released
    have hnone : dynamicSections rb₀.started = [] := by
      by_contra hne
      exact hnoted (h.noted.mpr hne)
    have hacked : ackedSections rb.sent = [] := by rw [hsent, h.acked, hnone]
    rw [Released, hsent, hstarted, dynamicSections_append, hnone,
      firstAccepted_append_first hnone, Bool.false_or, hsec, Bool.or_false, beq_iff_eq, ← hsent,
      hacked]
    constructor
    · rintro (hcancelled | hnothing)
      · rw [hsent] at hcancelled
        exact absurd hcancelled h.uncancelled
      · by_contra hric
        rw [if_neg hric] at hnothing
        cases hnothing
    · intro hric
      rw [if_pos hric]
      exact .inr rfl

end Builder

/-! ## The exchanges -/

section Exchanges

variable {a : Allocator} {c : Client} {method : Bytes} {fr : FrameReader} {rb rb' : RespBuilder}
  {ps : List Poll} {e : Err} {r r' : BodyReader}

theorem Clean.consume (h : Clean rb) (c : Client) (onData untilResponse : Bool) (fr : FrameReader) :
    Leaves (c.consume onData untilResponse fr rb).1.2
      ((c.consume onData untilResponse fr rb).2.isSome = true) := h.consumeFrom

/-- The loop of `roundTrip` leaves a refused section only with an error. -/
theorem Clean.receive (h : Clean rb) :
    Leaves (Http3.receive a c fr rb ps).1 (∃ e, (Http3.receive a c fr rb ps).2 = some (.error e)) := by
  induction ps generalizing fr rb with
  | nil =>
    have hconsume := h.consume c false false fr
    rw [Http3.receive]
    generalize c.consume false false fr rb = out at hconsume ⊢
    rcases out with ⟨⟨fr₁, rb₁⟩, _ | e⟩
    · exact .inl (hconsume.clean (by simp))
    · exact hconsume.mono fun _ => ⟨e, rfl⟩
  | cons p ps ih =>
    have hconsume := h.consume c false false fr
    rw [Http3.receive]
    generalize c.consume false false fr rb = out at hconsume ⊢
    rcases out with ⟨⟨fr₁, rb₁⟩, _ | e⟩
    · have hclean : Clean rb₁ := hconsume.clean (by simp)
      dsimp only
      rcases recvStep a fr₁ p with ⟨fr₂, e | _ | _⟩
      · exact .inl hclean
      · exact ih hclean
      · exact .inl hclean
    · exact hconsume.mono fun _ => ⟨e, rfl⟩

theorem Clean.receiveHead (h : Clean rb) :
    Leaves (Http3.receiveHead a c fr rb ps).1
      (∃ e, (Http3.receiveHead a c fr rb ps).2 = some (.error e)) := by
  induction ps generalizing fr rb with
  | nil =>
    have hconsume := h.consume c true true fr
    rw [Http3.receiveHead]
    generalize c.consume true true fr rb = out at hconsume ⊢
    rcases out with ⟨⟨fr₁, rb₁⟩, _ | e⟩
    · have hclean : Clean rb₁ := hconsume.clean (by simp)
      dsimp only
      split_ifs <;> exact .inl hclean
    · exact hconsume.mono fun _ => ⟨e, rfl⟩
  | cons p ps ih =>
    have hconsume := h.consume c true true fr
    rw [Http3.receiveHead]
    generalize c.consume true true fr rb = out at hconsume ⊢
    rcases out with ⟨⟨fr₁, rb₁⟩, _ | e⟩
    · have hclean : Clean rb₁ := hconsume.clean (by simp)
      dsimp only
      split_ifs
      · exact .inl hclean
      · rcases recvStep a fr₁ p with ⟨fr₂, e | _ | _⟩
        · exact .inl hclean
        · exact ih hclean
        · exact .inl hclean
    · exact hconsume.mono fun _ => ⟨e, rfl⟩

/-- The reader: clean until it is aborted, and then settled for good. -/
structure Reader (r : BodyReader) : Prop where
  clean : r.aborted = false → Clean r.rb
  settled : r.aborted = true → Settled r.rb ∧ r.done = true

theorem Reader.abort (h : r.aborted = true → Settled r.rb)
    (hleft : r.aborted = false → Clean r.rb ∨ Broken r.rb)
    (hdone : r.done = true) : Reader r.abort := by
  unfold BodyReader.abort
  split_ifs with haborted
  · refine ⟨?_, fun _ => ⟨h haborted, hdone⟩⟩
    intro hnot
    rw [haborted] at hnot
    cases hnot
  · refine ⟨nofun, fun _ => ⟨settled_cancelOnError (hleft ?_), hdone⟩⟩
    simpa using haborted

/-- `fail` settles what a refused section left. -/
theorem Reader.fail (h : r.aborted = true → Settled r.rb)
    (hleft : r.aborted = false → Clean r.rb ∨ Broken r.rb) (e : Err) : Reader (r.fail e) :=
  Reader.abort h hleft rfl

theorem Reader.failed (h : Reader r) (e : Err) : Reader (r.fail e) :=
  Reader.fail (fun haborted => (h.settled haborted).1) (fun hnot => .inl (h.clean hnot)) e

theorem Reader.finish (h : Reader r) : Reader (r.finish method).1 := by
  unfold BodyReader.finish
  split_ifs
  · exact ⟨h.clean, fun haborted => ⟨(h.settled haborted).1, rfl⟩⟩
  · exact h.failed _

theorem Reader.turn (h : Reader r) : Reader (r.turn c method).1 := by
  unfold BodyReader.turn
  split
  · exact ⟨h.clean, h.settled⟩
  split_ifs with htrailers hdone
  · have hfinish : Reader (BodyReader.finish { r with emittedTrailers := true } method).1 :=
      Reader.finish ⟨h.clean, h.settled⟩
    generalize BodyReader.finish { r with emittedTrailers := true } method = out at hfinish ⊢
    rcases out with ⟨r₁, _ | e⟩ <;> exact hfinish
  · cases r.err <;> exact h
  · -- only here frames are read, so the reader is not aborted
    have hopen : r.aborted ≠ true := fun haborted => hdone (h.settled haborted).2
    have hclean : Clean r.rb := h.clean (Bool.not_eq_true _ ▸ hopen)
    rcases r.fr.readFrame with ⟨fr, (_ | _) | f⟩
    · exact ⟨h.clean, h.settled⟩
    · exact Reader.failed (r := { r with fr }) ⟨h.clean, h.settled⟩ _
    · have hdispatch := hclean.dispatchFrame c true f
      dsimp only
      generalize c.dispatchFrame true r.rb f = out at hdispatch ⊢
      rcases out with ⟨rb, e | payload⟩
      · exact Reader.fail (r := { r with fr, rb }) (fun haborted => absurd haborted hopen)
          (fun _ => hdispatch.imp_right And.left) e
      · have hreader : Reader { r with fr, rb } :=
          ⟨fun _ => hdispatch.clean (by simp), fun haborted => absurd haborted hopen⟩
        cases payload with
        | none => exact hreader
        | some payload => exact ⟨hreader.clean, hreader.settled⟩

theorem Reader.next {turns : ℕ} (h : Reader r) : Reader (r.next a c method turns ps).1.1 := by
  induction turns generalizing r ps with
  | zero => exact h
  | succ turns ih =>
    have hturn : Reader (r.turn c method).1 := h.turn
    rw [BodyReader.next]
    generalize r.turn c method = out at hturn ⊢
    rcases out with ⟨r₁, turn⟩
    cases turn with
    | event | failed => exact hturn
    | again => exact ih hturn
    | refill =>
      cases ps with
      | nil => exact hturn
      | cons p ps =>
        dsimp only
        rcases recvStep a r₁.fr p with ⟨fr, e | _ | _⟩
        · exact Reader.failed (r := { r₁ with fr }) ⟨hturn.clean, hturn.settled⟩ e
        · exact ih ⟨hturn.clean, hturn.settled⟩
        · have hfinish : Reader (BodyReader.finish { r₁ with fr } method).1 :=
            Reader.finish ⟨hturn.clean, hturn.settled⟩
          dsimp only
          generalize BodyReader.finish { r₁ with fr } method = out at hfinish ⊢
          rcases out with ⟨r₂, _ | e⟩ <;> exact hfinish

theorem Reader.close (h : Reader r) : Reader r.close := by
  unfold BodyReader.close
  split_ifs
  · exact h
  · exact Reader.abort (fun haborted => (h.settled haborted).1)
      (fun hnot => .inl (h.clean hnot)) rfl

theorem Reader.uses {start out : BodyReader × List Poll} (h : Reader start.1)
    (huses : Uses a c method start out) : Reader out.1 := by
  induction huses with
  | start => exact h
  | @next r ps turns out e _ hnext ih =>
    have hstep : Reader (r.next a c method turns ps).1.1 := Reader.next ih
    rw [hnext] at hstep
    exact hstep
  | close _ ih => exact Reader.close ih

theorem Clean.isSettled (h : Clean rb) : Settled rb :=
  ⟨fun _ => h.first, fun _ => .inr h.acked⟩

/-- A round trip that is over. -/
theorem roundTrip_settled {capacity : ℕ} (hout : (roundTrip a c capacity method ps).2 ≠ none) :
    Settled (roundTrip a c capacity method ps).1 := by
  have hreceive : Leaves (receive a c ⟨Buf.make capacity, 0, c.responseByteCap⟩ {} ps).1 _ :=
    clean_init.receive
  unfold roundTrip at hout ⊢
  generalize receive a c ⟨Buf.make capacity, 0, c.responseByteCap⟩ {} ps = r at hreceive hout ⊢
  rcases r with ⟨rb, _ | e | u⟩
  · exact absurd rfl hout
  · exact settled_cancelOnError (hreceive.imp_right And.left)
  · have hclean : Clean rb := hreceive.clean (by simp)
    dsimp only
    cases finalizeResponse rb.toProgress method with
    | error e => exact settled_cancelOnError (.inl hclean)
    | ok r => exact hclean.isSettled

/-- A streaming one that fails, or that hands out its reader. -/
theorem roundTripStream_settled :
    (∀ e, (roundTripStream a c ps).2 = some (.error e) → Settled (roundTripStream a c ps).1) ∧
      ∀ start, (roundTripStream a c ps).2 = some (.ok start) → Reader start.1 := by
  have hreceive : Leaves (receiveHead a c ⟨Buf.make 0, 0, c.responseByteCap⟩ {} ps).1 _ :=
    clean_init.receiveHead
  unfold roundTripStream
  generalize receiveHead a c ⟨Buf.make 0, 0, c.responseByteCap⟩ {} ps = r at hreceive ⊢
  rcases r with ⟨rb, _ | e | ⟨fr, rest⟩⟩
  · exact ⟨by simp, by simp⟩
  · exact ⟨fun _ _ => settled_cancelOnError (hreceive.imp_right And.left), by simp⟩
  · have hclean : Clean rb := hreceive.clean (by simp)
    dsimp only
    cases rb.resp with
    | none => exact ⟨by simp, by simp⟩
    | some resp =>
      refine ⟨by simp, ?_⟩
      intro start hstart
      obtain rfl := Except.ok.inj (Option.some.inj hstart)
      exact ⟨fun _ => hclean, fun haborted => absurd haborted Bool.false_ne_true⟩

/-- Whatever way an exchange ends, the references are released exactly when the first section that
has some was accepted. -/
theorem Ended.isSettled {err : Option Err} (h : Ended a c method rb err) : Settled rb := by
  cases h with
  | @failed capacity ps rb _ h | @done capacity ps rb _ h =>
    have hsettled : Settled (roundTrip a c capacity method ps).1 := roundTrip_settled (by simp [h])
    rwa [h] at hsettled
  | @refused ps rb e h =>
    have hsettled := (roundTripStream_settled (c := c)).1 e (congrArg Prod.snd h)
    rwa [h] at hsettled
  | @read ps rest rb start r h huses hdone =>
    have hreader : Reader r :=
      Reader.uses (roundTripStream_settled.2 start (congrArg Prod.snd h)) huses
    cases haborted : r.aborted with
    | false => exact (hreader.clean haborted).isSettled
    | true => exact (hreader.settled haborted).1

end Exchanges

/-! ## The result -/

/-- At the end of any exchange, whatever QPACK makes of its sections: the connection is closed or all
references are released, exactly when the connection is closed or the first section that refers to
the table was accepted. -/
theorem released_iff (a : Allocator) (c : Client) (method : Bytes) {rb : RespBuilder} {err : Option Err}
    (h : Ended a c method rb err) :
    (Closed err ∨ Released rb) ↔ (Closed err ∨ firstAccepted false rb.started = true) :=
  or_congr_right h.isSettled

/-- Every section refers to the table and has a status, so that no trailers are accepted. -/
def secondRefused : Client where
  decode n _ :=
    { fields := .ok [⟨statusName, ascii "200", Header.indexIncremental⟩]
      ric := n + 1 }

/-- A response, and trailers that are none: the first section is acknowledged, and the stream is
cancelled for the second. -/
theorem released_iff_cancelled :
    ∃ rb, (roundTrip Growth.doubling secondRefused 0 (ascii "GET")
        [{ recv := [1, 1, 0, 1, 1, 0] }, { finished := true }]) = (rb, some (.error .message)) ∧
      rb.sent = [.sectionAck 1, .streamCancellation] ∧
      ((Closed (some .message) ∨ Released rb) ↔
        (Closed (some .message) ∨ firstAccepted false rb.started = true)) := by
  have hrun : (roundTrip Growth.doubling secondRefused 0 (ascii "GET")
      [{ recv := [1, 1, 0, 1, 1, 0] }, { finished := true }]) = (_, some (.error .message)) := rfl
  exact ⟨_, hrun, rfl, released_iff Growth.doubling secondRefused (ascii "GET") (.failed hrun)⟩

/-- A response section with a reference and a field that HTTP/3 forbids. -/
def pinning : Client where
  decode _ _ :=
    { fields := .ok [⟨statusName, ascii "200", Header.indexIncremental⟩,
        ⟨ascii "connection", ascii "close", Header.indexIncremental⟩]
      ric := 1 }

/-- It is refused, and nothing at all is sent about it. -/
theorem refused_section_pinned :
    ∃ rb, Ended Growth.doubling pinning (ascii "GET") rb (some .message) ∧
      dynamicSections rb.started = [1] ∧ rb.sent = [] ∧ ¬ Closed (some .message) ∧ ¬ Released rb := by
  have hrun : (roundTrip Growth.doubling pinning 0 (ascii "GET")
      [{ recv := [1, 1, 0] }, { finished := true }]) = (_, some (.error .message)) := rfl
  refine ⟨_, .failed hrun, rfl, rfl, id, ?_⟩
  rintro (h | h)
  · cases h
  · cases h

end Http3
