import PoseidonHttp.Lib.Modify
import PoseidonHttp.Lib.Transition
import PoseidonHttp.Quic.Conn

/-!
# The life of a stream

A stream enters the connection when it is opened or accepted, and the identifier leaves the
routing map when both directions have ended. Everything a connection does to its send side is
`Calm`: it makes no stream, charges nothing, and identifiers only leave the map.

`Single` says that an identifier belongs to one stream. It rests on the record of the streams
there have been, and retirement deletes the record the handler of STREAM frames looks at.
-/

namespace Quic

open Header (Bytes)
open Transition
open Recovery (Wire)

/-- The receive side of a stream. -/
def Stream.received (s : Stream) : ℕ × RecvStream × ℕ × ℕ × Bool :=
  (s.id, s.recv, s.recvMax, s.recvHighest, s.recvReset)

namespace Conn

/-- No stream is made, nothing is received or charged, and identifiers only leave the map. -/
structure Calm (c c' : Conn) : Prop where
  params : c'.params = c.params
  acceptLog : c'.acceptLog = c.acceptLog
  openedBidi : c'.openedBidi = c.openedBidi
  openedUni : c'.openedUni = c.openedUni
  nextBidi : c'.nextBidiStreamID = c.nextBidiStreamID
  recvMax : c'.connRecvMax = c.connRecvMax
  recvTotal : c'.connRecvTotal = c.connRecvTotal
  recvConsumed : c'.connRecvConsumed = c.connRecvConsumed
  received : c'.streams.map Stream.received = c.streams.map Stream.received
  routes : ∀ id h, c'.routes id = some h → c.routes id = some h

/-- What a step leaves alone that does not touch the receive side. -/
def aside (c : Conn) :=
  (c.params, c.acceptLog, c.openedBidi, c.openedUni, c.nextBidiStreamID, c.connRecvMax,
    c.connRecvTotal, c.connRecvConsumed, c.streams.map Stream.received, c.routes)

namespace Calm

theorem of_aside {c c' : Conn} (h : c'.aside = c.aside) : Calm c c' := by
  simp only [aside, Prod.mk.injEq] at h
  rcases h with ⟨h₁, h₂, h₃, h₄, h₅, h₆, h₇, h₈, h₉, hroutes⟩
  exact ⟨h₁, h₂, h₃, h₄, h₅, h₆, h₇, h₈, h₉, fun _ _ hr => hroutes ▸ hr⟩

theorem refl (c : Conn) : Calm c c := of_aside rfl

theorem trans {c d e : Conn} (h : Calm c d) (h' : Calm d e) : Calm c e where
  params := h'.params.trans h.params
  acceptLog := h'.acceptLog.trans h.acceptLog
  openedBidi := h'.openedBidi.trans h.openedBidi
  openedUni := h'.openedUni.trans h.openedUni
  nextBidi := h'.nextBidi.trans h.nextBidi
  recvMax := h'.recvMax.trans h.recvMax
  recvTotal := h'.recvTotal.trans h.recvTotal
  recvConsumed := h'.recvConsumed.trans h.recvConsumed
  received := h'.received.trans h.received
  routes := fun id k hr => h.routes id k (h'.routes id k hr)

end Calm

section Calm

variable (c : Conn)

theorem modifyStream_calm (h : ℕ) {f : Stream → Stream}
    (hf : ∀ s, (f s).received = s.received) : Calm c (c.modifyStream h f) :=
  ⟨rfl, rfl, rfl, rfl, rfl, rfl, rfl, rfl, Modify.map_modify_of_eq hf c.streams h, fun _ _ hr => hr⟩

theorem maybeRetire_calm (h : ℕ) : Calm c (c.maybeRetire h) := by
  unfold maybeRetire
  split
  · exact Calm.refl c
  rename_i s _
  split_ifs
  · refine ⟨rfl, rfl, rfl, rfl, rfl, rfl, rfl, rfl, rfl, ?_⟩
    intro id k hr
    by_cases hid : id = s.id
    · subst hid
      simp at hr
    · simpa [Function.update_of_ne hid] using hr
  · exact Calm.refl c

theorem writeAppFrames_calm (frame : Option RetransFrame) (wire : Wire) :
    Calm c (c.writeAppFrames frame wire).2 := by
  unfold writeAppFrames
  split_ifs
  · exact Calm.refl c
  · exact .of_aside rfl

theorem emitStreamsBlocked_calm (uni : Bool) (limit : ℕ) (wire : Wire) :
    Calm c (c.emitStreamsBlocked uni limit wire) := by
  have hwrite := writeAppFrames_calm c (some ⟨.streamsBlocked, 0, limit, 0, none, uni⟩) wire
  unfold emitStreamsBlocked
  split_ifs
  · exact Calm.refl c
  · exact Calm.refl c
  · split
    · rename_i heq
      rw [heq] at hwrite
      exact hwrite
    · rename_i heq
      rw [heq] at hwrite
      exact hwrite.trans (.of_aside rfl)

theorem advance_calm (h : ℕ) (chunk : Bytes) (fin : Bool) : Calm c (c.advance h chunk fin) := by
  -- the send side of the stream and the total move, then the stream may retire
  have hcount : Calm c { c.modifyStream h fun s => { s with
      sendOffset := s.sendOffset + chunk.length
      finSent := s.finSent || fin
      sentBytes := s.sentBytes ++ chunk } with connSent := c.connSent + chunk.length } := by
    refine ⟨rfl, rfl, rfl, rfl, rfl, rfl, rfl, rfl, ?_, fun _ _ hr => hr⟩
    apply Modify.map_modify_of_eq
    exact fun _ => rfl
  unfold advance
  split_ifs
  · exact hcount.trans (maybeRetire_calm _ h)
  · exact hcount

theorem writeStreamFrame_calm (h : ℕ) (s : Stream) (chunk : Bytes) (fin : Bool)
    (wire : Wire) : Calm c (c.writeStreamFrame h s chunk fin wire).2 := by
  have hkeep : Calm c (c.keepChunk s chunk fin).2 := .of_aside rfl
  have hwrite := hkeep.trans
    (writeAppFrames_calm _ (some (c.keepChunk s chunk fin).1) wire)
  unfold writeStreamFrame
  dsimp only
  split
  · rename_i heq
    rw [heq] at hwrite
    exact hwrite
  · rename_i heq
    rw [heq] at hwrite
    exact hwrite.trans (advance_calm _ h chunk fin)

theorem emitBlocked_calm (h : ℕ) (s : Stream) (kind : BlockKind)
    (wire : Wire) : Calm c (c.emitBlocked h s kind wire) := by
  unfold emitBlocked
  split
  · split_ifs
    · exact Calm.refl c
    · refine Calm.trans ?_ (writeAppFrames_calm _ none wire)
      apply modifyStream_calm
      exact fun _ => rfl
  · split_ifs
    · exact Calm.refl c
    · have hlatch : Calm c { c with dataBlocked := some c.connMax } := .of_aside rfl
      exact hlatch.trans (writeAppFrames_calm _ none wire)
  · exact Calm.refl c

theorem send_calm (h : ℕ) (data : Bytes) (fin : Bool) (wire : Wire) :
    Calm c (c.send h data fin wire).2.2 := by
  apply send_keeps
  · intro d s _ _ hd _
    exact hd.trans (.of_aside rfl)
  · intro d s kind hd _
    exact hd.trans (emitBlocked_calm d h s kind wire)
  · intro d s chunk last hd _ _ _ _
    exact hd.trans (writeStreamFrame_calm d h s chunk last wire)
  · exact Calm.refl c

theorem reset_calm (h errCode : ℕ) (wire : Wire) : Calm c (c.reset h errCode wire).2 := by
  unfold reset
  split
  · exact Calm.refl c
  rename_i s _
  split_ifs
  · exact Calm.refl c
  · exact Calm.refl c
  · have hscrub : Calm c { c.modifyStream h fun s => { s with
        sendReset := true, resetAt := c.recovery.sealedLog.length } with
        recovery := c.recovery.scrubResetStreamData s.id } := by
      refine ⟨rfl, rfl, rfl, rfl, rfl, rfl, rfl, rfl, ?_, fun _ _ hr => hr⟩
      apply Modify.map_modify_of_eq
      exact fun _ => rfl
    have hwrite := hscrub.trans (writeAppFrames_calm _
      (some ⟨.reset, s.id, s.sendOffset, errCode, none, false⟩) wire)
    dsimp only
    split
    · rename_i heq
      exact (congrArg (Calm c) (congrArg Prod.snd heq)).mp hwrite
    · rename_i heq
      exact ((congrArg (Calm c) (congrArg Prod.snd heq)).mp hwrite).trans (maybeRetire_calm _ h)

/-- `StopSending` ends the receive side and does nothing else to it. -/
theorem stopSending_cases (h errCode : ℕ) (wire : Wire) :
    Calm c (c.stopSending h errCode wire).2 ∨
      Calm (c.modifyStream h fun s => { s with recvReset := true })
        (c.stopSending h errCode wire).2 := by
  unfold stopSending
  split
  · exact .inl (Calm.refl c)
  · split_ifs
    · exact .inl (Calm.refl c)
    · exact .inl (Calm.refl c)
    · right
      exact (maybeRetire_calm _ h).trans (writeAppFrames_calm _ _ wire)

theorem onStopSending_calm (id errCode : ℕ) (wire : Wire) :
    Calm c (c.onStopSending id errCode wire).2 := by
  unfold onStopSending
  split
  · exact Calm.refl c
  · split
    · exact reset_calm c _ errCode wire
    · exact Calm.refl c

theorem onMaxData_calm (maximum : ℕ) : Calm c (c.onMaxData maximum) := by
  unfold onMaxData
  dsimp only
  split_ifs <;> exact .of_aside rfl

theorem onMaxStreamData_calm (id maximum : ℕ) : Calm c (c.onMaxStreamData id maximum).2 := by
  unfold onMaxStreamData
  split
  · exact Calm.refl c
  split
  · have hgrant : Calm c (c.granted (.streamData id maximum)) := .of_aside rfl
    split
    · refine hgrant.trans ?_
      apply modifyStream_calm
      exact fun _ => rfl
    · exact hgrant
  · exact Calm.refl c

theorem onMaxStreams_calm (uni : Bool) (maximum : ℕ) : Calm c (c.onMaxStreams uni maximum).2 := by
  unfold onMaxStreams
  dsimp only
  split_ifs
  · exact Calm.refl c
  all_goals exact .of_aside rfl

end Calm

/-! ## The routing map -/

variable {c c' : Conn} {s : Stream} {h id : ℕ}

/-- The stream at a handle, found again by its identifier. -/
theorem getElem?_id_of_map_eq {xs ys : List Stream} (h : ys.map Stream.id = xs.map Stream.id)
    {i : ℕ} (hs : xs[i]? = some s) : ∃ t, ys[i]? = some t ∧ t.id = s.id := by
  have hi := congrArg (fun l => l[i]?) h
  simp only [List.getElem?_map, hs, Option.map_some, Option.map_eq_some_iff] at hi
  exact hi

/-- The map routes an identifier to a stream that has it. -/
def Routed (c : Conn) : Prop :=
  ∀ id h, c.routes id = some h → ∃ s, c.streams[h]? = some s ∧ s.id = id

theorem lookup_eq_some (hl : c.lookup id = some (h, s)) :
    c.routes id = some h ∧ c.streams[h]? = some s := by
  rcases Option.bind_eq_some_iff.mp hl with ⟨k, hk, hrest⟩
  rcases Option.map_eq_some_iff.mp hrest with ⟨t, ht, heq⟩
  rcases heq with ⟨rfl, rfl⟩
  exact ⟨hk, ht⟩

theorem Routed.lookup (hr : c.Routed) (hl : c.lookup id = some (h, s)) :
    c.streams[h]? = some s ∧ s.id = id := by
  rcases lookup_eq_some hl with ⟨hroute, hs⟩
  rcases hr id h hroute with ⟨u, hu, hid⟩
  rw [hs, Option.some.injEq] at hu
  exact ⟨hs, hu ▸ hid⟩

/-- Identifiers only leave the map. -/
theorem Routed.keep (hr : c.Routed) (hids : c'.streams.map Stream.id = c.streams.map Stream.id)
    (hroutes : ∀ id h, c'.routes id = some h → c.routes id = some h) : c'.Routed := by
  intro id h hh
  rcases hr id h (hroutes id h hh) with ⟨s, hs, hid⟩
  rcases getElem?_id_of_map_eq hids hs with ⟨t, ht, htid⟩
  exact ⟨t, ht, htid.trans hid⟩

theorem Routed.add (hr : c.Routed) {sendMax : ℕ}
    (hstreams : c'.streams = c.streams ++ [Stream.new id sendMax])
    (hroutes : c'.routes = Function.update c.routes id (some c.streams.length)) : c'.Routed := by
  intro x h hh
  rw [hroutes] at hh
  by_cases hx : x = id
  · subst hx
    rw [Function.update_self, Option.some.injEq] at hh
    subst hh
    exact ⟨Stream.new x sendMax, by simp [hstreams], rfl⟩
  · rw [Function.update_of_ne hx] at hh
    rcases hr x h hh with ⟨s, hs, hid⟩
    have hlt : h < c.streams.length := (List.getElem?_eq_some_iff.mp hs).1
    exact ⟨s, by rw [hstreams, List.getElem?_append_left hlt, hs], hid⟩

/-! ## One stream for an identifier -/

/-- An identifier belongs to one stream; those of the peer are the accepted ones, ours were
created; the map routes an identifier to its stream; and the connection is charged with what
each stream was charged with. -/
structure Single (c : Conn) : Prop where
  ids : (c.streams.map Stream.id).Nodup
  logged : c.acceptLog = (c.streams.map Stream.id).filter fun id => !c.ours id
  created : ∀ id ∈ c.streams.map Stream.id, c.ours id = true → c.localStreamNotCreated id = false
  nextBidi : c.nextBidiStreamID % 4 = if c.params.isServer then 1 else 0
  routed : ∀ id h, c.routes id = some h → ∃ s, c.streams[h]? = some s ∧ s.id = id
  charged : c.connRecvTotal = (c.streams.map Stream.recvHighest).sum

/-- The streams, what they were charged with and the counters stand as they were. -/
structure Quiet (c c' : Conn) : Prop where
  params : c'.params = c.params
  acceptLog : c'.acceptLog = c.acceptLog
  openedUni : c'.openedUni = c.openedUni
  nextBidi : c'.nextBidiStreamID = c.nextBidiStreamID
  recvTotal : c'.connRecvTotal = c.connRecvTotal
  ids : c'.streams.map Stream.id = c.streams.map Stream.id
  highest : c'.streams.map Stream.recvHighest = c.streams.map Stream.recvHighest
  routes : ∀ id h, c'.routes id = some h → c.routes id = some h

theorem Calm.quiet (h : Calm c c') : Quiet c c' := by
  have hids := congrArg (List.map Prod.fst) h.received
  have hhighest := congrArg (List.map fun x : ℕ × RecvStream × ℕ × ℕ × Bool => x.2.2.2.1) h.received
  simp only [List.map_map] at hids hhighest
  exact ⟨h.params, h.acceptLog, h.openedUni, h.nextBidi, h.recvTotal, hids, hhighest, h.routes⟩

theorem Routed.quiet (hr : c.Routed) (h : Quiet c c') : c'.Routed :=
  hr.keep h.ids h.routes

theorem Quiet.trans {d e : Conn} (h : Quiet c d) (h' : Quiet d e) : Quiet c e :=
  ⟨h'.params.trans h.params, h'.acceptLog.trans h.acceptLog, h'.openedUni.trans h.openedUni,
    h'.nextBidi.trans h.nextBidi, h'.recvTotal.trans h.recvTotal, h'.ids.trans h.ids,
    h'.highest.trans h.highest, fun id k hr => h.routes id k (h'.routes id k hr)⟩

theorem ours_congr (hp : c'.params = c.params) (id : ℕ) : c'.ours id = c.ours id := by
  simp only [ours, hp]

theorem Single.quiet (hi : c.Single) (h : Quiet c c') : c'.Single := by
  refine ⟨?_, ?_, ?_, ?_, ?_, ?_⟩
  · rw [h.ids]
    exact hi.ids
  · simp only [h.acceptLog, h.ids, ours_congr h.params]
    exact hi.logged
  · intro id hid hours
    rw [h.ids] at hid
    rw [ours_congr h.params] at hours
    rw [localStreamNotCreated, ours, uniStreamBase, h.params, h.openedUni, h.nextBidi]
    exact hi.created id hid hours
  · rw [h.nextBidi, h.params]
    exact hi.nextBidi
  · exact Routed.quiet hi.routed h
  · rw [h.recvTotal, h.highest]
    exact hi.charged

/-- The stream an identifier is routed to has that identifier. -/
theorem Single.lookup (hi : c.Single) (hl : c.lookup id = some (h, s)) :
    c.streams[h]? = some s ∧ s.id = id :=
  Routed.lookup hi.routed hl

/-- With no record of an identifier, the map does not route it. -/
theorem Single.routes_none (hi : c.Single) (hl : c.lookup id = none) : c.routes id = none := by
  cases hr : c.routes id with
  | none => rfl
  | some h =>
    rcases hi.routed id h hr with ⟨s, hs, _⟩
    simp [Conn.lookup, hr, hs] at hl

/-! ## Making a stream -/

/-- A stream is made under an identifier no stream has had. -/
theorem Single.add (hi : c.Single) {sendMax : ℕ}
    (hstreams : c'.streams = c.streams ++ [Stream.new id sendMax])
    (hroutes : c'.routes = Function.update c.routes id (some c.streams.length))
    (hparams : c'.params = c.params) (htotal : c'.connRecvTotal = c.connRecvTotal)
    (hlog : c'.acceptLog = if c.ours id then c.acceptLog else c.acceptLog ++ [id])
    (hnew : id ∉ c.streams.map Stream.id)
    (hcreated : ∀ x, c.ours x = true → x = id ∨ c.localStreamNotCreated x = false →
      c'.localStreamNotCreated x = false) (hnext : c'.nextBidiStreamID % 4 = c.nextBidiStreamID % 4) :
    c'.Single := by
  have hids : c'.streams.map Stream.id = c.streams.map Stream.id ++ [id] := by
    rw [hstreams, List.map_append]
    rfl
  refine ⟨?_, ?_, ?_, ?_, ?_, ?_⟩
  · rw [hids, ← List.concat_eq_append]
    exact hi.ids.concat hnew
  · rw [hlog, hids, hi.logged]
    simp only [ours_congr hparams]
    by_cases hours : c.ours id <;> simp [hours]
  · intro x hx hours
    rw [ours_congr hparams] at hours
    rw [hids, List.mem_append, List.mem_singleton] at hx
    apply hcreated x hours
    rcases hx with hx | rfl
    · exact .inr (hi.created x hx hours)
    · exact .inl rfl
  · rw [hnext, hparams]
    exact hi.nextBidi
  · exact Routed.add hi.routed hstreams hroutes
  · rw [htotal, hstreams, hi.charged]
    simp [Stream.new]

/-- An identifier of ours was created when it is below the counter of its kind. -/
theorem created_iff (hours : c.ours id = true) :
    c.localStreamNotCreated id = false ↔
      (isUni id = true → id < c.uniStreamBase + c.openedUni * 4) ∧
        (isUni id = false → id < c.nextBidiStreamID) := by
  unfold localStreamNotCreated
  rw [hours]
  cases huni : isUni id <;> simp

/-- An identifier of ours that was not created belongs to no stream. -/
theorem Single.not_mem_of_notCreated (hi : c.Single) (hours : c.ours id = true)
    (h : ¬ c.localStreamNotCreated id = false) :
    id ∉ c.streams.map Stream.id :=
  fun hmem => h (hi.created id hmem hours)

/-- The next bidirectional stream is ours. -/
theorem ours_bidi (h : c.nextBidiStreamID % 4 = if c.params.isServer then 1 else 0) :
    c.ours c.nextBidiStreamID = true ∧ isUni c.nextBidiStreamID = false := by
  cases hrole : c.params.isServer <;> simp [hrole] at h <;> simp [ours, isUni, hrole] <;> omega

theorem openStream_single (hi : c.Single) (wire : Wire) : (c.openStream wire).2.Single := by
  unfold openStream
  split_ifs
  · exact hi.quiet (emitStreamsBlocked_calm c false _ wire).quiet
  have hkind := ours_bidi hi.nextBidi
  have hfresh : ¬ c.localStreamNotCreated c.nextBidiStreamID = false := by
    rw [created_iff hkind.1]
    exact fun h => Nat.lt_irrefl _ (h.2 hkind.2)
  refine hi.add rfl rfl rfl rfl ?_ (hi.not_mem_of_notCreated hkind.1 hfresh) ?_ ?_
  · rw [hkind.1]
    rfl
  · intro x hours hx
    rw [created_iff hours] at hx
    refine (created_iff ?_).mpr ⟨?_, ?_⟩
    · exact hours
    · intro huni
      rcases hx with rfl | hx
      · rw [hkind.2] at huni
        exact absurd huni Bool.false_ne_true
      · exact hx.1 huni
    · intro huni
      change x < c.nextBidiStreamID + 4
      rcases hx with rfl | hx
      · omega
      · exact Nat.lt_add_right 4 (hx.2 huni)
  · simp

/-- The next unidirectional stream is ours. -/
theorem ours_uni (c : Conn) : c.ours (c.uniStreamBase + c.openedUni * 4) = true ∧
    isUni (c.uniStreamBase + c.openedUni * 4) = true := by
  cases hrole : c.params.isServer <;> simp [ours, isUni, uniStreamBase, hrole] <;> omega

theorem openUniStream_single (hi : c.Single) (wire : Wire) : (c.openUniStream wire).2.Single := by
  unfold openUniStream
  split_ifs
  · exact hi.quiet (emitStreamsBlocked_calm c true _ wire).quiet
  have hkind := ours_uni c
  have hfresh : ¬ c.localStreamNotCreated (c.uniStreamBase + c.openedUni * 4) = false := by
    rw [created_iff hkind.1]
    exact fun h => Nat.lt_irrefl _ (h.1 hkind.2)
  refine hi.add rfl rfl rfl rfl ?_ (hi.not_mem_of_notCreated hkind.1 hfresh) ?_ rfl
  · rw [hkind.1]
    rfl
  intro x hours hx
  rw [created_iff hours] at hx
  refine (created_iff ?_).mpr ⟨?_, ?_⟩
  · exact hours
  · intro huni
    change x < c.uniStreamBase + (c.openedUni + 1) * 4
    rcases hx with rfl | hx
    · omega
    · have hlt := hx.1 huni
      omega
  · intro huni
    rcases hx with rfl | hx
    · rw [hkind.2] at huni
      exact absurd huni.symm Bool.false_ne_true
    · exact hx.2 huni

/-- The handler makes a stream for an identifier of the peer, with the limit the peer has set. -/
theorem onUnknownStream_ok {d : Conn} (h : c.onUnknownStream id = .ok (some d)) :
    c.ours id = false ∧ ∃ uni bidi, d = { c.addStream id (c.initialStreamData id) with
      acceptedUni := uni, acceptedBidi := bidi, acceptLog := c.acceptLog ++ [id] } := by
  unfold onUnknownStream acceptPeerUniStream acceptPeerBidiStream at h
  split_ifs at h with hours _ huni
  all_goals simp only [Except.map, Except.ok.injEq, Option.some.injEq, reduceCtorEq] at h
  all_goals
    have hours := Bool.eq_false_iff.mpr hours
    refine ⟨hours, ?_⟩
    simp only [initialStreamData, huni, hours]
    exact ⟨_, _, h.symm⟩

/-- A stream of the peer is accepted under an identifier it has not used. -/
theorem onUnknownStream_single {d : Conn} (hi : c.Single) (hnew : id ∉ c.acceptLog)
    (h : c.onUnknownStream id = .ok (some d)) : d.Single := by
  rcases onUnknownStream_ok h with ⟨hours, uni, bidi, rfl⟩
  refine hi.add rfl rfl rfl rfl ?_ ?_ ?_ rfl
  · rw [hours]
    rfl
  · intro hmem
    apply hnew
    rw [hi.logged]
    exact List.mem_filter.mpr ⟨hmem, by simp [hours]⟩
  · intro x hx hcase
    rcases hcase with rfl | hcase
    · rw [hours] at hx
      exact absurd hx Bool.false_ne_true
    · exact hcase

/-! ## What arrives, and reading it -/

/-- What a property of connections has to survive to hold after a frame of a stream, and after
reading from one: the stream is charged, its receive side changes, it retires, and the limits
of the connection move. -/
structure Hears (P : Conn → Prop) : Prop where
  charge : ∀ {c : Conn} {h s stop}, P c → c.streams[h]? = some s → s.recvHighest < stop →
    P { c.modifyStream h fun s => { s with recvHighest := stop } with
      connRecvTotal := c.connRecvTotal + (stop - s.recvHighest) }
  modify : ∀ {c : Conn} (h) (recv : Stream → RecvStream) (recvMax : Stream → ℕ)
    (reset : Stream → Bool), P c → P (c.modifyStream h fun s => { s with
      recv := recv s, recvMax := recvMax s, recvReset := reset s })
  retire : ∀ {c : Conn} (h), P c → P (c.maybeRetire h)
  count : ∀ {c : Conn} (consumed recvMax), P c → P { c with
    connRecvConsumed := consumed, connRecvMax := recvMax }

section Hears

variable {P : Conn → Prop}

theorem Hears.chargeRecv (hp : Hears P) (hc : P c) (hs : c.streams[h]? = some s) (stop : ℕ) :
    P (c.chargeRecv h s stop).2 := by
  unfold Conn.chargeRecv
  dsimp only
  split_ifs with hoff hstream hold hconn
  · exact hc
  · exact hc
  · exact hc
  · exact hc
  · exact hp.charge hc hs (Nat.lt_of_not_le hold)

theorem Hears.receiveOn (hp : Hears P) (hc : P c) (hs : c.streams[h]? = some s) (offset : ℕ)
    (fin : Bool) (data : Bytes) : P (c.receiveOn h s offset fin data).2 := by
  have hcharge := hp.chargeRecv hc hs ((offset + data.length) % u64)
  unfold Conn.receiveOn
  split
  · rename_i heq
    rw [heq] at hcharge
    exact hcharge
  rename_i d heq
  rw [heq] at hcharge
  have hrecv := hp.modify h (fun _ => (s.recv.receive offset data fin).1) Stream.recvMax
    Stream.recvReset hcharge
  dsimp only
  split
  · exact hrecv
  · exact hp.retire h hrecv

/-- A STREAM frame may make the stream it is for. -/
theorem Hears.onStream (hp : Hears P) (hc : P c) (hnew : ∀ d, c.lookup id = none →
      c.onUnknownStream id = .ok (some d) → P d) (offset : ℕ) (fin : Bool) (data : Bytes) :
    P (c.onStream id offset fin data).2 := by
  unfold Conn.onStream
  split_ifs
  · exact hc
  split
  · rename_i hl
    exact hp.receiveOn hc (lookup_eq_some hl).2 offset fin data
  rename_i hl
  split
  · exact hc
  · exact hc
  · rename_i d hd
    split
    · rename_i hl'
      exact hp.receiveOn (hnew d hl hd) (lookup_eq_some hl').2 offset fin data
    · exact hnew d hl hd

theorem Hears.onResetStream (hp : Hears P) (hc : P c) (id finalSize : ℕ) :
    P (c.onResetStream id finalSize).2 := by
  unfold Conn.onResetStream
  split_ifs
  · exact hc
  · exact hc
  · split
    · exact hc
    rename_i h s hl
    have hcharge := hp.chargeRecv hc (lookup_eq_some hl).2 finalSize
    split_ifs
    · exact hc
    · exact hc
    · exact hc
    · split
      · rename_i heq
        rw [heq] at hcharge
        exact hcharge
      · rename_i d heq
        rw [heq] at hcharge
        exact hp.retire h (hp.modify h (fun s => { s.recv with
          finalKnown := true, finalSize := finalSize, highest := max s.recv.highest finalSize })
          Stream.recvMax (fun _ => true) hcharge)

/-- The grant moves the limit of the stream. -/
theorem grantStream_eq (s : Stream) : grantStream s = { s with recvMax := (grantStream s).recvMax } := by
  unfold grantStream
  dsimp only
  split_ifs
  · rfl
  · rfl

theorem Hears.recv (hp : Hears P) (hc : P c) (h : ℕ) : P (c.recv h).2 := by
  unfold Conn.recv
  split
  · exact hc
  rename_i s _
  have hread := hp.modify h (fun _ => s.recv.read.2) Stream.recvMax Stream.recvReset hc
  have hcount := hp.count (c.connRecvConsumed + s.recv.read.1.length) c.connRecvMax hread
  have hgrant := hp.modify h Stream.recv (fun s => (grantStream s).recvMax) Stream.recvReset hcount
  dsimp only
  split_ifs
  · unfold onStreamConsumed
    dsimp only
    rw [funext grantStream_eq]
    split_ifs
    · exact hcount
    · unfold grantConn
      dsimp only
      split_ifs
      · exact hp.count _ _ hgrant
      · exact hgrant
  · exact hread

end Hears

/-- A change to one stream that leaves its identifier and its charge alone. -/
theorem modifyStream_quiet (c : Conn) (h : ℕ) {f : Stream → Stream} (hid : ∀ s, (f s).id = s.id)
    (hhighest : ∀ s, (f s).recvHighest = s.recvHighest) : Quiet c (c.modifyStream h f) :=
  ⟨rfl, rfl, rfl, rfl, rfl, Modify.map_modify_of_eq hid c.streams h,
    Modify.map_modify_of_eq hhighest c.streams h, fun _ _ hr => hr⟩

theorem stopSending_quiet (c : Conn) (h errCode : ℕ) (wire : Wire) :
    Quiet c (c.stopSending h errCode wire).2 := by
  rcases stopSending_cases c h errCode wire with hcalm | hcalm
  · exact hcalm.quiet
  · refine Quiet.trans ?_ hcalm.quiet
    apply modifyStream_quiet
    · exact fun _ => rfl
    · exact fun _ => rfl

/-- What the stream is charged more, the connection is charged more. -/
theorem Single.charge {stop : ℕ} (hi : c.Single) (hs : c.streams[h]? = some s)
    (hlt : s.recvHighest < stop) :
    Single { c.modifyStream h fun s => { s with recvHighest := stop } with
      connRecvTotal := c.connRecvTotal + (stop - s.recvHighest) } := by
  have hids : (c.streams.modify h fun s => { s with recvHighest := stop }).map Stream.id =
      c.streams.map Stream.id := by
    apply Modify.map_modify_of_eq
    exact fun _ => rfl
  have hsum := Modify.sum_map_modify hs Stream.recvHighest fun s => { s with recvHighest := stop }
  refine ⟨?_, ?_, ?_, hi.nextBidi, ?_, ?_⟩
  · exact hids ▸ hi.ids
  · have hlogged := hi.logged
    rw [← hids] at hlogged
    exact hlogged
  · have hcreated := hi.created
    rw [← hids] at hcreated
    exact hcreated
  · exact Routed.keep hi.routed hids (fun _ _ hr => hr)
  · have hcharged := hi.charged
    simp only [modifyStream] at hsum ⊢
    omega

theorem single_hears : Hears Single where
  charge hi hs hlt := hi.charge hs hlt
  modify h _ _ _ hi := hi.quiet (modifyStream_quiet _ h (fun _ => rfl) fun _ => rfl)
  retire h hi := hi.quiet (maybeRetire_calm _ h).quiet
  count _ _ hi := hi.quiet ⟨rfl, rfl, rfl, rfl, rfl, rfl, rfl, fun _ _ hr => hr⟩

/-- A STREAM frame for a stream of the peer that was accepted before and has been retired. -/
def Late (c : Conn) (id : ℕ) : Prop := id ∈ c.acceptLog ∧ c.routes id = none

instance (c : Conn) (id : ℕ) : Decidable (c.Late id) := inferInstanceAs (Decidable (_ ∧ _))

/-! ## Steps -/

/-- The step is a frame that brings data or a final size. -/
def Op.brings : Op → Bool
  | .onStream .. | .onResetStream .. => true
  | _ => false

/-- What a step does beyond calm changes: it makes a stream, or moves the receive side of one. -/
inductive Stirs (c : Conn) : Op → Conn → Prop
  | calm {op : Op} {c' : Conn} (hop : op.brings = false) (h : Calm c c') : Stirs c op c'
  | opened {op : Op} {c' : Conn} {id sendMax : ℕ} (hop : op.brings = false)
    (hsingle : c.Single → c'.Single) (hstreams : c'.streams = c.streams ++ [Stream.new id sendMax])
    (hroutes : c'.routes = Function.update c.routes id (some c.streams.length))
    (hparams : c'.params = c.params) (hconsumed : c'.connRecvConsumed = c.connRecvConsumed)
    (hmax : c'.connRecvMax = c.connRecvMax)
    (hnext : c'.nextBidiStreamID % 4 = c.nextBidiStreamID % 4)
    (hkind : isUni c.nextBidiStreamID = false → c.recvOnlyStream id = false) : Stirs c op c'
  | stopSending (h errCode : ℕ) (wire : Wire) :
    Stirs c (.stopSending h errCode wire) (c.stopSending h errCode wire).2
  | recv (h : ℕ) : Stirs c (.recv h) (c.recv h).2
  | onStream (id offset : ℕ) (fin : Bool) (data : Bytes) :
    Stirs c (.onStream id offset fin data) (handled (c.onStream id offset fin data))
  | onResetStream (id finalSize : ℕ) :
    Stirs c (.onResetStream id finalSize) (handled (c.onResetStream id finalSize))

/-- An error of a handler closes the connection and moves nothing else. -/
theorem handled_calm (result : Option Error × Conn) : Calm result.2 (handled result) := .of_aside rfl

theorem step_stirs {op : Op} (h : c.step op = some c') : Stirs c op c' := by
  cases op <;> simp only [step, Option.some.injEq, Option.ite_none_left_eq_some,
    Option.ite_none_right_eq_some, Option.map_eq_some_iff] at h
  case recovery =>
    rcases h with ⟨_, r, _, rfl⟩
    exact .calm rfl (.of_aside rfl)
  case flushRetransmits =>
    rcases h with ⟨_, rfl⟩
    exact .calm rfl (.of_aside rfl)
  all_goals subst h
  case openStream wire =>
    have hsingle := fun hi : c.Single => openStream_single hi wire
    unfold openStream at hsingle ⊢
    split_ifs at hsingle ⊢
    · exact .calm rfl (emitStreamsBlocked_calm c false _ wire)
    · refine .opened rfl hsingle rfl rfl rfl rfl rfl ?_ ?_
      · simp
      · intro hbidi
        rw [recvOnlyStream, hbidi, Bool.false_and]
  case openUniStream wire =>
    have hsingle := fun hi : c.Single => openUniStream_single hi wire
    unfold openUniStream at hsingle ⊢
    split_ifs at hsingle ⊢
    · exact .calm rfl (emitStreamsBlocked_calm c true _ wire)
    · refine .opened rfl hsingle rfl rfl rfl rfl rfl rfl ?_
      simp [recvOnlyStream, (ours_uni c).1]
  case send h data fin wire => exact .calm rfl (send_calm c h data fin wire)
  case reset h errCode wire => exact .calm rfl (reset_calm c h errCode wire)
  case stopSending h errCode wire => exact .stopSending h errCode wire
  case recv h => exact .recv h
  case onStream id offset fin data => exact .onStream id offset fin data
  case onResetStream id finalSize => exact .onResetStream id finalSize
  case onStopSending id errCode wire =>
    exact .calm rfl ((onStopSending_calm c id errCode wire).trans (handled_calm _))
  case onMaxData maximum => exact .calm rfl (onMaxData_calm c maximum)
  case onMaxStreamData id maximum =>
    exact .calm rfl ((onMaxStreamData_calm c id maximum).trans (handled_calm _))
  case onMaxStreams uni maximum =>
    exact .calm rfl ((onMaxStreams_calm c uni maximum).trans (handled_calm _))
  all_goals exact .calm rfl (.of_aside rfl)

/-- Every step keeps an identifier to one stream, but for a STREAM frame that comes late. -/
theorem step_single {op : Op} (hi : c.Single)
    (hlate : ∀ id offset fin data, op = .onStream id offset fin data → ¬ c.Late id)
    (hstep : c.step op = some c') : c'.Single := by
  cases step_stirs hstep with
  | calm _ hcalm => exact hi.quiet hcalm.quiet
  | opened _ hsingle => exact hsingle hi
  | stopSending h errCode wire => exact hi.quiet (stopSending_quiet c h errCode wire)
  | recv h => exact single_hears.recv hi h
  | onStream id offset fin data =>
    refine Single.quiet (single_hears.onStream hi ?_ offset fin data) (handled_calm _).quiet
    -- no record: the identifier was never accepted, as the frame is not late
    intro d hl hd
    have hnew : id ∉ c.acceptLog :=
      fun hmem => hlate id offset fin data rfl ⟨hmem, hi.routes_none hl⟩
    exact onUnknownStream_single hi hnew hd
  | onResetStream id finalSize =>
    exact Single.quiet (single_hears.onResetStream hi id finalSize) (handled_calm _).quiet

/-- The role and the limits are those of the start, we open streams of the right kind, and the
routes are right. -/
structure Kept (p : Params) (c : Conn) : Prop where
  params : c.params = p
  nextBidi : c.nextBidiStreamID % 4 = if p.isServer then 1 else 0
  routed : c.Routed

theorem Kept.quiet {p : Params} (hk : c.Kept p) (h : Quiet c c') : c'.Kept p :=
  ⟨h.params.trans hk.params, h.nextBidi ▸ hk.nextBidi, hk.routed.quiet h⟩

theorem Kept.ours_bidi {p : Params} (hk : c.Kept p) :
    c.ours c.nextBidiStreamID = true ∧ isUni c.nextBidiStreamID = false :=
  Conn.ours_bidi (hk.params ▸ hk.nextBidi)

/-- The handler makes a stream. -/
theorem Kept.accept {p : Params} {d : Conn} (hk : c.Kept p)
    (hd : c.onUnknownStream id = .ok (some d)) : d.Kept p := by
  rcases onUnknownStream_ok hd with ⟨_, uni, bidi, rfl⟩
  exact ⟨hk.params, hk.nextBidi, hk.routed.add rfl rfl⟩

theorem kept_hears {p : Params} : Hears (Kept p) where
  charge hk _ _ := by
    refine ⟨hk.params, hk.nextBidi, hk.routed.keep ?_ fun _ _ hh => hh⟩
    apply Modify.map_modify_of_eq
    exact fun _ => rfl
  modify h _ _ _ hk := hk.quiet (modifyStream_quiet _ h (fun _ => rfl) fun _ => rfl)
  retire h hk := hk.quiet (maybeRetire_calm _ h).quiet
  count _ _ hk := ⟨hk.params, hk.nextBidi, hk.routed⟩

theorem step_kept {p : Params} {op : Op} (hk : c.Kept p) (hstep : c.step op = some c') :
    c'.Kept p := by
  cases step_stirs hstep with
  | calm _ hcalm => exact hk.quiet hcalm.quiet
  | opened _ _ hstreams hroutes hparams _ _ hnext =>
    exact ⟨hparams.trans hk.params, hnext.trans hk.nextBidi, hk.routed.add hstreams hroutes⟩
  | stopSending h errCode wire => exact hk.quiet (stopSending_quiet c h errCode wire)
  | recv h => exact kept_hears.recv hk h
  | onStream id offset fin data =>
    refine Kept.quiet (kept_hears.onStream hk ?_ offset fin data) (handled_calm _).quiet
    exact fun d _ hd => hk.accept hd
  | onResetStream id finalSize =>
    exact (kept_hears.onResetStream hk id finalSize).quiet (handled_calm _).quiet

/-! ## Runs -/

def system (params : Params) : System Conn Op := ⟨new params, step⟩

theorem new_kept (params : Params) : (new params).Kept params := by
  refine ⟨rfl, ?_, ?_⟩
  · cases hrole : params.isServer <;> simp [new, hrole]
  · intro id h hh
    cases hh

theorem new_single (params : Params) : (new params).Single := by
  have hkept := new_kept params
  exact ⟨by simp [new], by simp [new], by simp [new], hkept.nextBidi, hkept.routed, by simp [new]⟩

/-- No STREAM frame comes for a stream of the peer that was accepted and has been retired. -/
def InTime (c : Conn) : Op → Prop
  | .onStream id _ _ _ => ¬ c.Late id
  | _ => True

instance (c : Conn) (op : Op) : Decidable (c.InTime op) := by
  cases op <;> dsimp only [InTime] <;> infer_instance

theorem reachable_single {params : Params} (h : (system params).ReachableBy InTime c) :
    c.Single := by
  refine h.invariant ?_ ?_
  · exact new_single params
  · intro s op s' hi htime hstep
    apply step_single hi _ hstep
    intro id offset fin data hop
    subst hop
    exact htime

/-- As long as no STREAM frame comes for a stream that was accepted and has been retired, no
identifier is accepted twice, no two streams share one, and the connection is charged once for
what each stream received. -/
theorem accepted_once {params : Params} {c : Conn} (h : (system params).ReachableBy InTime c) :
    c.acceptLog.Nodup ∧ (c.streams.map Stream.id).Nodup ∧
      c.connRecvTotal = (c.streams.map Stream.recvHighest).sum := by
  have hi := reachable_single h
  refine ⟨?_, hi.ids, hi.charged⟩
  rw [hi.logged]
  exact hi.ids.filter _

/-- A server that lets the peer open two streams of each kind. -/
def smallServer : Params where
  isServer := true
  bbr := false
  initialMaxData := 100
  initialMaxStreamDataBidiLocal := 50
  initialMaxStreamDataBidiRemote := 50
  initialMaxStreamDataUni := 50
  initialMaxStreamsBidi := 2
  initialMaxStreamsUni := 2
  localMaxStreamsBidi := 2
  localMaxStreamsUni := 2

/-- Every packet is sealed and written. -/
def fairWire : Wire := ⟨fun _ => .sealed 100 true, fun _ => 1200, 0⟩

/-- Two requests and a control stream, frames that repeat before the response is finished, and
a response with FIN. -/
theorem accepted_once_requests :
    ∃ c, (system smallServer).ReachableBy InTime c ∧ c.acceptLog = [0, 4, 2] ∧
      c.acceptLog.Nodup ∧ c.connRecvTotal = (c.streams.map Stream.recvHighest).sum := by
  have hrun : ∃ c, (system smallServer).ReachableBy InTime c ∧ c.acceptLog = [0, 4, 2] := by
    apply System.exists_reachableBy
      [.onStream 0 0 true [1, 2], .onStream 0 0 true [1, 2], .onStream 4 1 false [7],
       .onStream 2 0 false [9], .recv 0, .send 0 [5] true fairWire]
    · decide +kernel
    · decide +kernel
  rcases hrun with ⟨c, hreach, hlog⟩
  rcases accepted_once hreach with ⟨hnodup, _, hcharged⟩
  exact ⟨c, hreach, hlog, hnodup, hcharged⟩

/-- A request of one byte with FIN is answered with FIN, which retires its stream. The same
frame comes again: stream 0 is accepted a second time, its byte can be read a second time, and
the connection is charged two bytes for it. -/
theorem late_frame_accepted_again :
    ∃ c, (system smallServer).Reachable c ∧ c.acceptLog = [0, 0] ∧ ¬ c.acceptLog.Nodup ∧
      c.connRecvTotal = 2 ∧ (c.recv 0).1 = [1] ∧ (c.recv 1).1 = [1] := by
  apply System.exists_reachable
    [.onStream 0 0 true [1], .acceptBidiStream, .send 0 [] true fairWire, .onStream 0 0 true [1]]
  decide +kernel

end Conn

end Quic
