import PoseidonHttp.Quic.Sender

/-!
# The peer's limits

What a connection sends stays within what its peer has granted: on each stream, over the whole
connection, and in the number of streams. The limits are compared before anything is sent, by
subtractions of words that would wrap if a limit were ever passed; `Limited` is the invariant
under which they do not. Frames that are sent again are frames that were sent once, so the limit
that covered them then covers them still.
-/

namespace Quic

open Header (Bytes)
open Transition

/-- Within the minuend, the subtraction of words gives no more than the difference. -/
theorem sub64_le {a b : ℕ} (h : b ≤ a) : sub64 a b ≤ a - b := by
  have hsplit : a + (u64 - b % u64) = (a - b) + u64 * (b / u64 + 1) := by
    have hdiv := Nat.div_add_mod b u64
    have hlt := Nat.mod_lt b (show 0 < u64 by decide)
    rw [Nat.mul_add]
    omega
  rw [sub64, hsplit, Nat.add_mul_mod_self_left]
  exact Nat.mod_le _ _

namespace Sender

open Recovery (Carries)

/-- The peer has granted the stream what the frame reaches to. -/
def Covers (x : Sender) (y : RetransFrame × Bytes) : Prop :=
  ∃ n, Grant.streamData y.1.streamID n ∈ x.grants ∧ y.1.offset + y.2.length ≤ n

structure Limited (x : Sender) : Prop where
  sound : x.recovery.Sound
  held : ∀ y ∈ x.recovery.letters, x.Covers y
  sealedLog : ∀ y ∈ x.recovery.sealedLog, y.1.kind = .stream → x.Covers y
  streams : ∀ s ∈ x.streams, s.sendOffset ≤ s.sendMax ∧ s.sendOffset ≤ maxVarint ∧
    Grant.streamData s.id s.sendMax ∈ x.grants
  sent : x.connSent = (x.streams.map Outgoing.sendOffset).sum
  data : x.connSent ≤ x.connMax ∧ Grant.data x.connMax ∈ x.grants
  bidi : x.openedBidi ≤ x.maxStreamsBidi ∧ Grant.streams false x.maxStreamsBidi ∈ x.grants
  uni : x.openedUni ≤ x.maxStreamsUni ∧ Grant.streams true x.maxStreamsUni ∈ x.grants
  unwrapped : x.wrapped = false

variable {s : Outgoing} {x y : Sender} {dropped : Sender → RetransFrame → Prop}

/-- Grants are not taken back. -/
theorem Covers.mono {f : RetransFrame × Bytes} (h : x.Covers f)
    (hgrants : ∀ g ∈ x.grants, g ∈ y.grants) : y.Covers f := by
  rcases h with ⟨n, hn, hle⟩
  exact ⟨n, hgrants _ hn, hle⟩

/-- A frame within the credit ends within the three limits. -/
theorem Limited.continues (hx : x.Limited) (hs : s ∈ x.streams) {f : RetransFrame} {chunk : Bytes}
    (hf : x.Continues s f chunk) :
    s.sendOffset + chunk.length ≤ s.sendMax ∧ s.sendOffset + chunk.length ≤ maxVarint ∧
      x.connSent + chunk.length ≤ x.connMax := by
  rcases hx.streams s hs with ⟨hmax, hvarint, _⟩
  have hdata := hx.data.1
  rcases hf.admitted with rfl | hle
  · simpa using ⟨hmax, hvarint, hdata⟩
  · have hstream := sub64_le hmax
    have hconn := sub64_le hdata
    have hoffset := sub64_le hvarint
    unfold credit at hle
    omega

theorem Limited.covers (hx : x.Limited) (hs : s ∈ x.streams) {f : RetransFrame} {chunk : Bytes}
    (hf : x.Continues s f chunk) : x.Covers (f, chunk) := by
  refine ⟨s.sendMax, ?_, ?_⟩
  · rw [hf.id]
    exact (hx.streams s hs).2.2
  · rw [hf.offset]
    exact (hx.continues hs hf).1

/-- Frames that are held or sealed after frames were carried on were covered before, if the new
ones are. -/
theorem Limited.carries (hx : x.Limited) {dropped : RetransFrame → Prop}
    {new : List (RetransFrame × Bytes)} {r : Recovery} (h : Carries dropped new x.recovery r)
    (hnew : ∀ y ∈ new, x.Covers y) : { x with recovery := r }.Limited where
  sound := h.sound
  held := by
    intro y hy
    rcases h.letters y hy with hy | hy
    · exact hx.held y hy
    · exact hnew y hy
  sealedLog := by
    intro y hy hkind
    rcases h.sealedLog with ⟨log, hlog, hfrom⟩
    rw [hlog, List.mem_append] at hy
    rcases hy with hy | hy
    · exact hx.sealedLog y hy hkind
    · rcases hfrom y hy hkind with hy | hy
      · exact hx.held y hy
      · exact hnew y hy
  __ := hx

/-- A grant alone changes nothing. -/
theorem Limited.granted (hx : x.Limited) (g : Grant) :
    { x with grants := x.grants ++ [g] }.Limited := by
  have hgrants : ∀ g' ∈ x.grants, g' ∈ x.grants ++ [g] := fun _ hg => List.mem_append_left _ hg
  refine ⟨hx.sound, fun y hy => (hx.held y hy).mono hgrants,
    fun y hy hkind => (hx.sealedLog y hy hkind).mono hgrants, ?_, hx.sent,
    ⟨hx.data.1, hgrants _ hx.data.2⟩, ⟨hx.bidi.1, hgrants _ hx.bidi.2⟩,
    ⟨hx.uni.1, hgrants _ hx.uni.2⟩, hx.unwrapped⟩
  intro t ht
  rcases hx.streams t ht with ⟨hmax, hvarint, hgrant⟩
  exact ⟨hmax, hvarint, hgrants _ hgrant⟩

/-- Of two limits granted the higher one is granted. -/
theorem max_mem {grants : List Grant} {f : ℕ → Grant} {m n : ℕ} (hm : f m ∈ grants)
    (hn : f n ∈ grants) : f (max m n) ∈ grants := by
  rcases Nat.le_total m n with h | h
  · rw [Nat.max_eq_right h]
    exact hn
  · rw [Nat.max_eq_left h]
    exact hm

theorem Limited.unwraps (hx : x.Limited) (hs : s ∈ x.streams) : x.wraps s = false := by
  rcases hx.streams s hs with ⟨hmax, hvarint, _⟩
  have hdata := hx.data.1
  simp only [wraps, Bool.or_eq_false_iff, decide_eq_false_iff_not]
  omega

theorem Move.limited (hx : x.Limited) (h : Move dropped x y) : y.Limited := by
  cases h with
  | pass h => exact hx.carries (h hx.sound) (by simp)
  | record hs hf hr =>
    apply hx.carries (hr hx.sound)
    intro y hy
    rw [List.mem_singleton] at hy
    exact hy ▸ hx.covers (List.mem_of_getElem? hs) hf
  | @write h s f chunk r hs hf hr =>
    have hmem := List.mem_of_getElem? hs
    rcases hx.continues hmem hf with ⟨hstream, hvarint, hconn⟩
    have hrecovery : { x with recovery := r }.Limited := by
      apply hx.carries (hr hx.sound).1
      intro y hy
      rw [List.mem_singleton] at hy
      exact hy ▸ hx.covers hmem hf
    refine { hrecovery with streams := ?_, sent := ?_, data := ⟨hconn, hx.data.2⟩ }
    · exact Modify.forall_modify hs hx.streams ⟨hstream, hvarint, (hx.streams s hmem).2.2⟩
    · have hsum := Modify.sum_map_modify hs Outgoing.sendOffset fun s => { s with
        sendOffset := s.sendOffset + chunk.length
        finSent := s.finSent || f.fin
        sentBytes := s.sentBytes ++ chunk }
      have hsent := hx.sent
      dsimp only at hsum ⊢
      omega
  | @reset h s r hs hopen hr =>
    have hrecovery := hx.carries (hr hx.sound).1 (by simp)
    refine { hrecovery with streams := ?_, sent := ?_ }
    · exact Modify.forall_modify hs hx.streams (hx.streams s (List.mem_of_getElem? hs))
    · simpa [Modify.map_modify_of_eq] using hx.sent
  | make id sendMax bidi uni hbidi huni =>
    have hgranted := hx.granted (.streamData id sendMax)
    refine { hgranted with
      streams := ?_, sent := ?_, bidi := ⟨?_, hgranted.bidi.2⟩, uni := ⟨?_, hgranted.uni.2⟩ }
    · apply List.forall_mem_append.mpr ⟨hgranted.streams, List.forall_mem_singleton.mpr ?_⟩
      exact ⟨Nat.zero_le _, Nat.zero_le _, by simp⟩
    · simpa using hx.sent
    · have hold := hx.bidi.1
      dsimp only
      omega
    · have hold := hx.uni.1
      dsimp only
      omega
  | maxData n =>
    have hgranted := hx.granted (.data n)
    refine { hgranted with data := ⟨?_, ?_⟩ }
    · exact le_max_of_le_left hx.data.1
    · exact max_mem hgranted.data.2 (by simp)
  | @maxStreamData h s n hs =>
    have hmem := List.mem_of_getElem? hs
    have hgranted := hx.granted (.streamData s.id n)
    refine { hgranted with streams := ?_, sent := ?_ }
    · rcases hgranted.streams s hmem with ⟨hmax, hvarint, hgrant⟩
      refine Modify.forall_modify hs hgranted.streams ⟨le_max_of_le_left hmax, hvarint, ?_⟩
      exact max_mem hgrant (by simp)
    · simpa [Modify.map_modify_of_eq] using hx.sent
  | maxStreams uni n =>
    have hgranted := hx.granted (.streams uni n)
    cases uni with
    | true =>
      refine { hgranted with uni := ⟨le_max_of_le_left hx.uni.1, ?_⟩ }
      exact max_mem hgranted.uni.2 (by simp)
    | false =>
      refine { hgranted with bidi := ⟨le_max_of_le_left hx.bidi.1, ?_⟩ }
      exact max_mem hgranted.bidi.2 (by simp)
  | note hs =>
    have hunwraps := hx.unwraps (List.mem_of_getElem? hs)
    refine { hx with unwrapped := ?_ }
    rw [hunwraps, hx.unwrapped]
    rfl

theorem Moves.limited (hx : x.Limited) (h : Moves dropped x y) : y.Limited := by
  induction h with
  | refl => exact hx
  | tail _ hmove ih => exact hmove.limited ih

/-! ## Limits only rise -/

/-- No limit falls, and a handle stays with its stream. -/
structure Rises (x y : Sender) : Prop where
  data : x.connMax ≤ y.connMax
  bidi : x.maxStreamsBidi ≤ y.maxStreamsBidi
  uni : x.maxStreamsUni ≤ y.maxStreamsUni
  streams : ∀ (h : ℕ) (s : Outgoing), x.streams[h]? = some s →
    ∃ t : Outgoing, y.streams[h]? = some t ∧ t.id = s.id ∧ s.sendMax ≤ t.sendMax

/-- The same streams. -/
theorem Rises.same (hdata : x.connMax ≤ y.connMax) (hbidi : x.maxStreamsBidi ≤ y.maxStreamsBidi)
    (huni : x.maxStreamsUni ≤ y.maxStreamsUni) (hstreams : y.streams = x.streams) : Rises x y :=
  ⟨hdata, hbidi, huni, fun _ s hs => ⟨s, hstreams ▸ hs, rfl, Nat.le_refl _⟩⟩

/-- One stream changes and its limit does not fall. -/
theorem Rises.modify {f : Outgoing → Outgoing} {k : ℕ} (hdata : y.connMax = x.connMax)
    (hbidi : y.maxStreamsBidi = x.maxStreamsBidi) (huni : y.maxStreamsUni = x.maxStreamsUni)
    (hstreams : y.streams = x.streams.modify k f)
    (hf : ∀ s, (f s).id = s.id ∧ s.sendMax ≤ (f s).sendMax) : Rises x y := by
  refine ⟨hdata.ge, hbidi.ge, huni.ge, ?_⟩
  intro h s hs
  rw [hstreams, List.getElem?_modify, hs]
  by_cases heq : k = h
  · exact ⟨f s, by simp [heq], hf s⟩
  · exact ⟨s, by simp [heq], rfl, Nat.le_refl _⟩

theorem Move.rises (h : Move dropped x y) : Rises x y := by
  have hle : ∀ n : ℕ, n ≤ n := Nat.le_refl
  cases h with
  | pass | record | note => exact .same (hle _) (hle _) (hle _) rfl
  | maxData n => exact .same (Nat.le_max_left _ _) (hle _) (hle _) rfl
  | maxStreams uni n =>
    cases uni with
    | true => exact .same (hle _) (hle _) (Nat.le_max_left _ _) rfl
    | false => exact .same (hle _) (Nat.le_max_left _ _) (hle _) rfl
  | write | reset => exact .modify rfl rfl rfl rfl fun s => ⟨rfl, hle _⟩
  | maxStreamData n => exact .modify rfl rfl rfl rfl fun s => ⟨rfl, Nat.le_max_left _ _⟩
  | make =>
    refine ⟨hle _, hle _, hle _, ?_⟩
    intro h s hs
    have hlt : h < x.streams.length := (List.getElem?_eq_some_iff.mp hs).1
    exact ⟨s, by rw [List.getElem?_append_left hlt, hs], rfl, hle _⟩

theorem Moves.rises (h : Moves dropped x y) : Rises x y := by
  induction h with
  | refl => exact .same (Nat.le_refl _) (Nat.le_refl _) (Nat.le_refl _) rfl
  | tail _ hmove ih =>
    have hmove := hmove.rises
    refine ⟨ih.data.trans hmove.data, ih.bidi.trans hmove.bidi, ih.uni.trans hmove.uni, ?_⟩
    intro h s hs
    rcases ih.streams h s hs with ⟨t, ht, hid, hmax⟩
    rcases hmove.streams h t ht with ⟨u, hu, huid, humax⟩
    exact ⟨u, hu, huid.trans hid, hmax.trans humax⟩

end Sender

namespace Conn

theorem new_limited (params : Params) : (new params).sender.Limited := by
  have hframes : ∀ sp, (new params).recovery.frames sp = [] := by
    intro sp
    simp [new, Recovery.new, Recovery.frames, SentSpace.empty]
  have hrefs : ∀ b, (new params).recovery.references b = 0 := by
    intro b
    simp only [Recovery.references, hframes, List.countP_nil]
    simp [new, Recovery.new]
  refine ⟨⟨?_, ?_⟩, ?_, ?_, ?_, ?_, ?_, ?_, ?_, rfl⟩
  · exact (Recovery.new_balanced params.bbr).same ⟨rfl, fun _ => rfl, rfl, rfl⟩
  · refine ⟨fun b => ?_, fun b hb => ?_, fun sp f hf => ?_⟩
    · change (new params).recovery.references b + _ ≤ 1
      simp [hrefs b, Recovery.inHand]
    · change 0 < (new params).recovery.references b + _ at hb
      simp [hrefs b, Recovery.inHand] at hb
    · change f ∈ (new params).recovery.frames sp at hf
      simp [hframes sp] at hf
  · intro y hy
    change y ∈ (new params).recovery.letters at hy
    simp [Recovery.letters, hframes] at hy
  all_goals simp [sender, new, Recovery.new]

/-- The routes are right and the send side is within its limits. -/
structure WithinLimits (params : Params) (c : Conn) : Prop where
  kept : c.Kept params
  limited : c.sender.Limited

theorem WithinLimits.moves {params : Params} {c c' : Conn} {op : Op} (h : c.WithinLimits params)
    (hstep : c.step op = some c') : Sender.Moves (fun _ _ => True) c.sender c'.sender :=
  step_moves h.kept (fun _ _ _ _ _ _ => trivial) hstep

theorem reachable_withinLimits {params : Params} {c : Conn} (h : (system params).Reachable c) :
    c.WithinLimits params := by
  refine h.invariant ?_ ?_
  · exact ⟨new_kept params, new_limited params⟩
  · intro d op d' hd _ hstep
    exact ⟨step_kept hd.kept hstep, (hd.moves hstep).limited hd.limited⟩

/-- Whatever is sent, reset and granted, and whichever packets fail or are lost: every STREAM
frame ever sealed ends within a limit the peer had granted for its stream, the bytes counted for
the connection are those of its streams and within a limit granted for it, as are the numbers of
streams opened; no subtraction of `grantable` has wrapped; and no step lowers a limit. -/
theorem sending_within_limits {params : Params} {c : Conn} (h : (system params).Reachable c) :
    (∀ y ∈ c.recovery.sealedLog, y.1.kind = .stream →
      ∃ n, Grant.streamData y.1.streamID n ∈ c.grants ∧ y.1.offset + y.2.length ≤ n) ∧
    c.connSent = (c.streams.map Stream.sendOffset).sum ∧
    (∃ n, Grant.data n ∈ c.grants ∧ c.connSent ≤ n) ∧
    (∃ n, Grant.streams false n ∈ c.grants ∧ c.openedBidi ≤ n) ∧
    (∃ n, Grant.streams true n ∈ c.grants ∧ c.openedUni ≤ n) ∧
    c.wrapped = false ∧
    ∀ op c', c.step op = some c' →
      c.connMax ≤ c'.connMax ∧ c.maxStreamsBidi ≤ c'.maxStreamsBidi ∧
      c.maxStreamsUni ≤ c'.maxStreamsUni ∧
      ∀ (k : ℕ) (s : Stream), c.streams[k]? = some s →
        ∃ s' : Stream, c'.streams[k]? = some s' ∧ s'.id = s.id ∧ s.sendMax ≤ s'.sendMax := by
  have hwithin := reachable_withinLimits h
  have hl := hwithin.limited
  refine ⟨hl.sealedLog, ?_, ⟨_, hl.data.2, hl.data.1⟩, ⟨_, hl.bidi.2, hl.bidi.1⟩,
    ⟨_, hl.uni.2, hl.uni.1⟩, hl.unwrapped, ?_⟩
  · have hsent := hl.sent
    simp only [sender, List.map_map] at hsent
    exact hsent
  intro op c' hstep
  have hrises := (hwithin.moves hstep).rises
  refine ⟨hrises.data, hrises.bidi, hrises.uni, ?_⟩
  intro k s hs
  rcases hrises.streams k _ (sender_getElem? hs) with ⟨t, ht, hid, hmax⟩
  simp only [sender, List.getElem?_map, Option.map_eq_some_iff] at ht
  rcases ht with ⟨s', hs', rfl⟩
  exact ⟨s', hs', hid, hmax⟩

/-- A client writes to the limit of a stream, sends the frame again for a probe, is granted more
and finishes, and opens a second stream. -/
theorem sending_within_limits_upload :
    ∃ c, (system { smallServer with isServer := false }).Reachable c ∧
      c.recovery.sealedLog.map (fun y => (y.1.offset, y.2.length)) = [(0, 50), (0, 50), (50, 10)] ∧
      c.openedBidi = 2 ∧ c.connSent = (c.streams.map Stream.sendOffset).sum ∧
      c.wrapped = false := by
  have hrun : ∃ c, (system { smallServer with isServer := false }).Reachable c ∧
      c.recovery.sealedLog.map (fun y => (y.1.offset, y.2.length)) = [(0, 50), (0, 50), (50, 10)] ∧
      c.openedBidi = 2 := by
    apply System.exists_reachable
      [.establish, .openStream fairWire, .send 0 (List.replicate 60 7) true fairWire,
       .recovery .handshakeDone, .recovery .onPTO, .flushRetransmits .app fairWire,
       .onMaxStreamData 0 80, .onMaxData 90, .send 0 (List.replicate 10 7) true fairWire,
       .openStream fairWire]
    decide +kernel
  rcases hrun with ⟨c, hreach, hlog, hopened⟩
  rcases sending_within_limits hreach with ⟨_, hsum, _, _, _, hwrapped, _⟩
  exact ⟨c, hreach, hlog, hopened, hsum, hwrapped⟩

end Conn

end Quic
