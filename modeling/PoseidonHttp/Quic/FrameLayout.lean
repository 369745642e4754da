import PoseidonHttp.Quic.FrameParser

/-!
# The layout of frames

What a payload holds, said without positions and without a handler. `frame` takes one frame off
the front of a list of bytes: its type, the calls it is reported by, and the bytes after it when
it is complete. Only an ACK frame is reported by more than one call, and a handler is called
before its ranges are read: an ACK frame that is cut off has calls and no rest.

`parseFrames_eq`: the parser makes the calls of the complete frames of the payload, one after
another; if a part is left over, it makes the calls of that part and refuses it.
-/

namespace Quic

open Header (Bytes)
open Cursor (Reader Parser Reads front Agrees tail next elem refuse position_of_drop)

namespace Layout

/-- A variable-length integer. -/
def varint : Parser UInt8 ℕ := readV

def varint2 : Parser UInt8 (ℕ × ℕ) := do
  let a ← varint
  let c ← varint
  return (a, c)

def varint3 : Parser UInt8 (ℕ × ℕ × ℕ) := do
  let a ← varint
  let c ← varint
  let d ← varint
  return (a, c, d)

def byte : Parser UInt8 UInt8
  | [] => none
  | b :: rest => some (b, rest)

/-- A length and so many bytes. -/
def varBytes : Parser UInt8 Bytes := do
  let length ← varint
  front length

def crypto : Parser UInt8 (ℕ × Bytes) := do
  let offset ← varint
  let data ← varBytes
  return (offset, data)

/-- All that is left. -/
def remaining : Parser UInt8 Bytes := fun src => some (src, [])

def stream (typeByte : UInt8) : Parser UInt8 (ℕ × ℕ × Bytes) := do
  let id ← varint
  let offset ← (if typeByte &&& streamOff ≠ 0 then varint else pure 0)
  let data ← (if typeByte &&& streamLen ≠ 0 then varBytes else remaining)
  return (id, offset, data)

def newConnectionID : Parser UInt8 (ℕ × ℕ × Bytes × Bytes) := do
  let seq ← varint
  let retire ← varint
  if retire > seq then failure
  else
    let first ← byte
    let cidLen := first.toNat
    if cidLen < 1 ∨ cidLen > 20 then failure
    else
      let cid ← front cidLen
      let token ← front 16
      return (seq, retire, cid, token)

def connectionClose (app : Bool) : Parser UInt8 (ℕ × ℕ × Bytes) := do
  let errCode ← varint
  let frameType ← (if app then pure 0 else varint)
  let reason ← varBytes
  return (errCode, frameType, reason)

def newToken : Parser UInt8 Bytes := do
  let tok ← varBytes
  if tok.length = 0 then failure else return tok

/-- The calls made for what is at the front, and the bytes after it when it is complete. -/
structure Outcome where
  calls : List Call
  rest : Option Bytes
  deriving DecidableEq, Repr

/-- Fields that are reported by one call, once they are all there. -/
def single {α : Type} (q : Parser UInt8 α) (f : α → Call) (src : Bytes) : Outcome :=
  match q src with
  | some (x, rest) => ⟨[f x], some rest⟩
  | none => ⟨[], none⟩

/-- One outcome, and then another on the bytes after it. -/
def Outcome.andThen (o : Outcome) (k : Bytes → Outcome) : Outcome :=
  match o.rest with
  | some rest => ⟨o.calls ++ (k rest).calls, (k rest).rest⟩
  | none => o

def ackRanges : ℕ → Bytes → Outcome
  | 0, src => ⟨[], some src⟩
  | count + 1, src =>
    (single varint2 (fun (gap, length) => .onAckRange gap length) src).andThen (ackRanges count)

/-- What stands before the ranges: the largest number, the delay, the number of ranges after the
first one, and the first one. -/
def ackHead : Parser UInt8 (ℕ × ℕ × ℕ × ℕ) := do
  let largest ← varint
  let delay ← varint
  let rangeCount ← varint
  let firstRange ← varint
  return (largest, delay, rangeCount, firstRange)

def ack (ecn : Bool) (src : Bytes) : Outcome :=
  match ackHead src with
  | none => ⟨[], none⟩
  | some ((largest, delay, rangeCount, firstRange), src) =>
    (Outcome.mk [.onAck largest delay firstRange] (some src)).andThen fun src =>
      (ackRanges rangeCount src).andThen fun src =>
        if ecn then single varint3 (fun (ect0, ect1, ce) => .onAckECN ect0 ect1 ce) src
        else ⟨[], some src⟩

/-- The fields of a frame of the type `typ`. -/
def body (typ : ℕ) (src : Bytes) : Outcome :=
  if typ ≥ frameStreamBase ∧ typ ≤ frameStreamMax then
    single (stream (UInt8.ofNat typ))
      (fun (id, offset, data) => .onStream id offset (UInt8.ofNat typ &&& streamFin != 0) data) src
  else if typ = framePing then ⟨[.onPing], some src⟩
  else if typ = frameHandshakeDone then ⟨[.onHandshakeDone], some src⟩
  else if typ = frameACK ∨ typ = frameACKECN then Layout.ack (typ == frameACKECN) src
  else if typ = frameResetStream then
    single varint3 (fun (id, ec, fs) => .onResetStream id ec fs) src
  else if typ = frameStopSending then single varint2 (fun (id, ec) => .onStopSending id ec) src
  else if typ = frameCrypto then single crypto (fun (off, data) => .onCrypto off data) src
  else if typ = frameNewToken then single newToken .onNewToken src
  else if typ = frameMaxData then single varint .onMaxData src
  else if typ = frameMaxStreamData then
    single varint2 (fun (id, m) => .onMaxStreamData id m) src
  else if typ = frameMaxStreamsBidi ∨ typ = frameMaxStreamsUni then
    single varint (.onMaxStreams (typ == frameMaxStreamsUni)) src
  else if typ = frameDataBlocked then single varint .onDataBlocked src
  else if typ = frameStreamDataBlocked then
    single varint2 (fun (id, l) => .onStreamDataBlocked id l) src
  else if typ = frameStreamsBlockedBidi ∨ typ = frameStreamsBlockedUni then
    single varint (.onStreamsBlocked (typ == frameStreamsBlockedUni)) src
  else if typ = frameNewConnectionID then
    single newConnectionID
      (fun (seq, retire, cid, token) => .onNewConnectionID seq retire cid token) src
  else if typ = frameRetireConnectionID then single varint .onRetireConnectionID src
  else if typ = framePathChallenge then single (front 8) .onPathChallenge src
  else if typ = framePathResponse then single (front 8) .onPathResponse src
  else if typ = frameConnectionClose ∨ typ = frameConnectionCloseApp then
    single (connectionClose (typ == frameConnectionCloseApp))
      (fun (errCode, frameType, reason) =>
        .onConnectionClose (typ == frameConnectionCloseApp) errCode frameType reason) src
  else ⟨[], none⟩

/-- What is at the front of a payload: its type, where it has one, and its outcome. -/
def item (src : Bytes) : Option ℕ × Outcome :=
  if src.head? = some 0 then
    let run := (src.takeWhile (· == 0)).length
    (none, ⟨[.onPadding run], some (src.drop run)⟩)
  else
    match varint src with
    | none => (none, ⟨[], none⟩)
    | some (typ, src) => (some typ, body typ src)

/-- A frame, or a run of padding, as it is reported: its type and its calls. -/
abbrev Frame : Type := Option ℕ × List Call

/-- What the front is reported as. -/
def reported (src : Bytes) : Frame := ((item src).1, (item src).2.calls)

/-- The payload starts with the complete frames `fs`, and `last` stands after them. -/
inductive Decodes : Bytes → List Frame → Bytes → Prop
  | nil (src : Bytes) : Decodes src [] src
  | cons {src rest last : Bytes} {fs : List Frame} (hne : src ≠ [])
      (hrest : (item src).2.rest = some rest) (h : Decodes rest fs last) :
      Decodes src (reported src :: fs) last

/-- There is no complete frame at the front. -/
def Ends (src : Bytes) : Prop := src = [] ∨ (item src).2.rest = none

end Layout

/-! ## The readers read the layout -/

namespace FrameParser

open Layout

variable {ε : Type} (e : ε)

theorem readV_reads : Reads (readV e) varint e := by
  intro b p hp
  have hle := readVarint_le (b.drop p)
  rw [List.length_drop] at hle
  have hread : readV e b p =
      if (readVarint (b.drop p)).2 = 0 then .error (.refused e)
      else .ok ((readVarint (b.drop p)).1, p + (readVarint (b.drop p)).2) := by
    have htail : (tail : Reader UInt8 ε Bytes) b p = .ok (b.drop p, p) := if_pos hp
    show ((tail : Reader UInt8 ε Bytes) b p >>= _) = _
    rw [htail]
    show (if (readVarint (b.drop p)).2 = 0 then refuse e else _ : Reader UInt8 ε ℕ) b p = _
    split_ifs <;> rfl
  rw [hread, varint, Quic.readV]
  dsimp only
  split_ifs
  · rfl
  · exact ⟨_, Nat.le_add_right _ _, by omega, List.drop_drop.symm, rfl⟩

theorem readV2_reads : Reads (readV2 e) varint2 e := by
  refine (readV_reads e).bind fun a => ?_
  refine (readV_reads e).bind fun c => ?_
  exact .pure (a, c)

theorem readV3_reads : Reads (readV3 e) varint3 e := by
  refine (readV_reads e).bind fun a => ?_
  refine (readV_reads e).bind fun c => ?_
  refine (readV_reads e).bind fun d => ?_
  exact .pure (a, c, d)

theorem readAckHead_reads : Reads (readAckHead e) ackHead e := by
  refine (readV_reads e).bind fun largest => ?_
  refine (readV_reads e).bind fun delay => ?_
  refine (readV_reads e).bind fun rangeCount => ?_
  refine (readV_reads e).bind fun firstRange => ?_
  exact .pure _

theorem readBytes_reads (length : ℕ) : Reads (readBytes e length) (front length) e := by
  refine Reads.next length ?_
  intro m p hp
  have hword : uint64 ((m : ℤ) - p) = m - p := by
    rw [uint64, if_pos (by omega)]
    omega
  rw [hword]

theorem readFixed_reads (n : ℕ) : Reads (readFixed e n) (front n) e := by
  refine Reads.next n ?_
  intro m p hp
  omega

theorem readByte_reads : Reads (readByte e) byte e := by
  intro b p hp
  show Agrees b p e ((if p ≥ b.length then refuse e else elem : Reader UInt8 ε _) b p) _
  split_ifs with hend
  · rw [List.drop_eq_nil_of_le hend]
    rfl
  · rw [List.drop_eq_getElem_cons (Nat.lt_of_not_le hend)]
    refine ⟨p + 1, Nat.le_succ p, Nat.lt_of_not_le hend, rfl, ?_⟩
    rw [elem, List.getElem?_eq_getElem (Nat.lt_of_not_le hend)]

theorem readVarBytes_reads : Reads (readVarBytes e) varBytes e :=
  (readV_reads e).bind fun length => readBytes_reads e length

theorem readLenPrefixed_reads : Reads (readLenPrefixed e) crypto e := by
  refine (readV_reads e).bind fun offset => ?_
  refine (readVarBytes_reads e).bind fun data => ?_
  exact .pure (offset, data)

theorem readRest_reads : Reads readRest remaining e := by
  intro b p hp
  refine ⟨b.length, hp, le_refl _, List.drop_length, ?_⟩
  have htail : (tail : Reader UInt8 ε Bytes) b p = .ok (b.drop p, p) := if_pos hp
  show ((tail : Reader UInt8 ε Bytes) b p >>= _) = _
  rw [htail]
  show Except.ok (b.drop p, p + (b.drop p).length) = _
  rw [List.length_drop, Nat.add_sub_cancel' hp]

theorem readStream_reads (typeByte : UInt8) :
    Reads (readStream e typeByte) (stream typeByte) e := by
  refine (readV_reads e).bind fun id => ?_
  have hoffset := Reads.ite (c := typeByte &&& streamOff ≠ 0) (readV_reads e) (.pure 0)
  have hdata := Reads.ite (c := typeByte &&& streamLen ≠ 0) (readVarBytes_reads e) (readRest_reads e)
  refine hoffset.bind fun offset => ?_
  refine hdata.bind fun data => ?_
  exact .pure (id, offset, data)

theorem readConnectionClose_reads (app : Bool) :
    Reads (readConnectionClose e app) (connectionClose app) e := by
  refine (readV_reads e).bind fun errCode => ?_
  have hframeType := Reads.ite (c := app = true) (.pure 0) (readV_reads e)
  refine hframeType.bind fun frameType => ?_
  refine (readVarBytes_reads e).bind fun reason => ?_
  exact .pure (errCode, frameType, reason)

theorem readNewToken_reads : Reads (readNewToken e) newToken e := by
  refine (readVarBytes_reads e).bind fun tok => ?_
  apply Reads.ite
  · exact .refuse
  · exact .pure tok

/-- The one check of NEW_CONNECTION_ID covers the two fields after it. -/
theorem readNewConnectionID_reads : Reads (readNewConnectionID e) newConnectionID e := by
  refine (readV_reads e).bind fun seq => ?_
  refine (readV_reads e).bind fun retire => ?_
  apply Reads.ite
  · exact .refuse
  refine (readByte_reads e).bind fun first => ?_
  intro b p hp
  show Agrees b p e ((if first.toNat < 1 ∨ first.toNat > 20 ∨
    (b.length : ℤ) - p < first.toNat + 16 then refuse e else _ : Reader UInt8 ε _) b p) _
  by_cases hlen : first.toNat < 1 ∨ first.toNat > 20
  · rw [if_pos (by omega), if_pos hlen]
    rfl
  rw [if_neg hlen]
  -- what is left after the identifier is short exactly if the two are too long together
  have hcid : (b.drop p).length = b.length - p := List.length_drop
  have htoken : ((b.drop p).drop first.toNat).length = b.length - p - first.toNat := by
    rw [List.length_drop, List.length_drop]
  show Agrees b p e _ ((front first.toNat (b.drop p)).bind fun y =>
    (front 16 y.2).bind fun z => some ((seq, retire, y.1, z.1), z.2))
  rw [front]
  by_cases hshort : b.length - p < first.toNat + 16
  · rw [if_pos (by omega)]
    split_ifs
    · rfl
    · show Agrees b p e _ ((front 16 _).bind _)
      rw [front, htoken, if_pos (by omega)]
      rfl
  · rw [if_neg (by omega), if_neg (by omega)]
    show Agrees b p e _ ((front 16 _).bind _)
    rw [front, htoken, if_neg (by omega), List.drop_drop, List.drop_drop]
    refine ⟨p + first.toNat + 16, by omega, by omega, rfl, ?_⟩
    have hnext : (next first.toNat : Reader UInt8 ε Bytes) b p =
        .ok ((b.drop p).take first.toNat, p + first.toNat) := if_pos (by omega)
    have hnext' : (next 16 : Reader UInt8 ε Bytes) b (p + first.toNat) =
        .ok ((b.drop (p + first.toNat)).take 16, p + first.toNat + 16) := if_pos (by omega)
    show ((next first.toNat : Reader UInt8 ε Bytes) b p >>= _) = _
    rw [hnext]
    show ((next 16 : Reader UInt8 ε Bytes) b (p + first.toNat) >>= _) = _
    rw [hnext']
    rfl

/-! ## Calls and positions -/

variable {σ α : Type} {h : FrameHandler σ}

/-- The calls of an outcome, and the position of its rest. -/
def emit (h : FrameHandler σ) (b : Bytes) (o : Outcome) : Parse σ ℕ := do
  o.calls.forM h.call
  match o.rest with
  | some rest => return b.length - rest.length
  | none => Parse.fail .frameEncoding

/-- From the position `p` on the code makes the calls of the outcome, and its rest is what
stands at the position after them. -/
structure Does (h : FrameHandler σ) (b : Bytes) (p : ℕ) (x : Parse σ ℕ) (o : Outcome) : Prop where
  eq : x = emit h b o
  within : ∀ rest, o.rest = some rest → ∃ p', p ≤ p' ∧ p' ≤ b.length ∧ b.drop p' = rest

theorem fail_bind {β : Type} (err : Error) (k : α → Parse σ β) :
    (Parse.fail err >>= k) = Parse.fail err := rfl

variable {b : Bytes} {p : ℕ}

/-- What starts later is still at or after the position. -/
theorem Does.later {p' : ℕ} {x : Parse σ ℕ} {o : Outcome}
    (hx : Does h b p' x o) (hle : p ≤ p') : Does h b p x o := by
  refine ⟨hx.eq, ?_⟩
  intro rest hrest
  rcases hx.within rest hrest with ⟨p'', hle', hwithin⟩
  exact ⟨p'', hle.trans hle', hwithin⟩

theorem Does.done (h : FrameHandler σ) (hp : p ≤ b.length) (calls : List Call) :
    Does h b p (do calls.forM h.call; return p) ⟨calls, some (b.drop p)⟩ := by
  refine ⟨?_, ?_⟩
  · simp only [emit, position_of_drop hp rfl]
  · rintro rest ⟨⟩
    exact ⟨p, le_refl p, hp, rfl⟩

/-- Nothing is read and nobody is called. -/
theorem Does.nothing (h : FrameHandler σ) (hp : p ≤ b.length) :
    Does h b p (pure p) ⟨[], some (b.drop p)⟩ := by
  have hdone := Does.done h hp []
  simpa using hdone

/-- A choice that both sides make. -/
theorem Does.ite {c : Prop} [Decidable c] {x x' : Parse σ ℕ} {o o' : Outcome}
    (hx : c → Does h b p x o) (hx' : ¬ c → Does h b p x' o') :
    Does h b p (if c then x else x') (if c then o else o') := by
  split_ifs with hc
  · exact hx hc
  · exact hx' hc

theorem Does.refused (h : FrameHandler σ) (b : Bytes) (p : ℕ) :
    Does h b p (Parse.fail .frameEncoding) ⟨[], none⟩ := by
  refine ⟨rfl, ?_⟩
  rintro rest ⟨⟩

theorem report_does (h : FrameHandler σ) {r : Error → Reader UInt8 Error α} {q : Parser UInt8 α}
    (hr : Reads (r .frameEncoding) q .frameEncoding) (f : α → Call) (hp : p ≤ b.length) :
    Does h b p (report h r f b p) (single q f (b.drop p)) := by
  have hread := hr b p hp
  unfold report single
  cases hq : q (b.drop p) with
  | none =>
    rw [hq] at hread
    rw [show r .frameEncoding b p = .error (.refused .frameEncoding) from hread]
    exact .refused h b p
  | some y =>
    rcases y with ⟨x, rest⟩
    rw [hq] at hread
    rcases hread with ⟨p', hle, hlen, hrest, hr⟩
    rw [hr, ← hrest]
    have hdone := (Does.done h hlen [f x]).later hle
    simpa [Parse.read] using hdone

theorem Does.andThen {x : Parse σ ℕ} {o : Outcome} {k : ℕ → Parse σ ℕ}
    {j : Bytes → Outcome} (hx : Does h b p x o)
    (hk : ∀ p', p ≤ p' → p' ≤ b.length → Does h b p' (k p') (j (b.drop p'))) :
    Does h b p (x >>= k) (o.andThen j) := by
  rcases o with ⟨calls, rest⟩
  cases rest with
  | none =>
    refine ⟨?_, ?_⟩
    · rw [hx.eq]
      simp [emit, Outcome.andThen, fail_bind]
    · rintro rest ⟨⟩
  | some rest =>
    rcases hx.within rest rfl with ⟨p', hle, hlen, hrest⟩
    have hnext := (hk p' hle hlen).later hle
    rw [hrest] at hnext
    refine ⟨?_, hnext.within⟩
    rw [hx.eq]
    simp [emit, Outcome.andThen, position_of_drop hlen hrest, hnext.eq]

theorem parseAckRanges_does (h : FrameHandler σ) (count : ℕ) (hp : p ≤ b.length) :
    Does h b p (parseAckRanges h count b p) (ackRanges count (b.drop p)) := by
  induction count generalizing p with
  | zero => exact .nothing h hp
  | succ count ih =>
    refine (report_does h (readV2_reads _) _ hp).andThen ?_
    intro p' _ hlen
    exact ih hlen

theorem parseAck_does (h : FrameHandler σ) (ecn : Bool) (hp : p ≤ b.length) :
    Does h b p (parseAck h ecn b p) (Layout.ack ecn (b.drop p)) := by
  have hread := readAckHead_reads Error.frameEncoding b p hp
  unfold parseAck Layout.ack
  cases hq : ackHead (b.drop p) with
  | none =>
    rw [hq] at hread
    rw [show readAckHead Error.frameEncoding b p = .error (.refused .frameEncoding) from hread]
    exact .refused h b p
  | some y =>
    rcases y with ⟨⟨largest, delay, rangeCount, firstRange⟩, rest⟩
    rw [hq] at hread
    rcases hread with ⟨p', hle, hlen, hrest, hr⟩
    rw [hr, ← hrest]
    -- the first call, then the ranges, then the counts of the second type
    have hfirst := Does.done h hlen [.onAck largest delay firstRange]
    have hall := hfirst.andThen (k := fun p => parseAckRanges h rangeCount b p >>= fun p =>
        if ecn then report h readV3 (fun (ect0, ect1, ce) => .onAckECN ect0 ect1 ce) b p
        else pure p)
      (j := fun src => (ackRanges rangeCount src).andThen fun src =>
        if ecn then single varint3 (fun (ect0, ect1, ce) => .onAckECN ect0 ect1 ce) src
        else ⟨[], some src⟩) ?_
    · simpa [Parse.read] using hall.later hle
    intro p _ hlen
    refine (parseAckRanges_does h rangeCount hlen).andThen ?_
    intro p _ hlen
    apply Does.ite
    · intro _
      exact report_does h (readV3_reads _) _ hlen
    · intro _
      exact .nothing h hlen

theorem parseFrameBody_does (h : FrameHandler σ) (typ : ℕ) (hp : p ≤ b.length) :
    Does h b p (parseFrameBody h typ b p) (body typ (b.drop p)) := by
  have hone : ∀ c : Call, Does h b p (do h.call c; return p) ⟨[c], some (b.drop p)⟩ := by
    intro c
    have hdone := Does.done h hp [c]
    simpa using hdone
  repeat' refine .ite (fun _ => ?_) fun _ => ?_
  · exact report_does h (readStream_reads _ _) _ hp
  · exact hone .onPing
  · exact hone .onHandshakeDone
  · exact parseAck_does h _ hp
  · exact report_does h (readV3_reads _) _ hp
  · exact report_does h (readV2_reads _) _ hp
  · exact report_does h (readLenPrefixed_reads _) _ hp
  · exact report_does h (readNewToken_reads _) _ hp
  · exact report_does h (readV_reads _) _ hp
  · exact report_does h (readV2_reads _) _ hp
  · exact report_does h (readV_reads _) _ hp
  · exact report_does h (readV_reads _) _ hp
  · exact report_does h (readV2_reads _) _ hp
  · exact report_does h (readV_reads _) _ hp
  · exact report_does h (readNewConnectionID_reads _) _ hp
  · exact report_does h (readV_reads _) _ hp
  · exact report_does h (readFixed_reads _ 8) _ hp
  · exact report_does h (readFixed_reads _ 8) _ hp
  · exact report_does h (readConnectionClose_reads _ _) _ hp
  · exact .refused h b p

/-! ## The loop -/

/-- A frame is permitted, where it has a type, and its calls are made. -/
def receive (h : FrameHandler σ) (f : Frame) : Parse σ Unit := do
  match f.1 with
  | some typ => h.permit typ
  | none => pure ()
  f.2.forM h.call

/-- What is left after the complete frames is reported as far as it goes, and refused. -/
def finish (h : FrameHandler σ) (last : Bytes) : Parse σ Unit :=
  if last = [] then pure ()
  else do
    receive h (reported last)
    Parse.fail .frameEncoding

theorem readV_shrinks {src rest : Bytes} {v : ℕ} (h : Quic.readV src = some (v, rest)) :
    rest.length < src.length := by
  have hle := readVarint_le src
  unfold Quic.readV at h
  dsimp only at h
  split_ifs at h
  cases h
  rw [List.length_drop]
  omega

/-- One round of the loop, where there is a byte to read. -/
theorem parseLoop_round (h : FrameHandler σ) (rounds : ℕ) (hp : p < b.length) :
    (∀ rest, (item (b.drop p)).2.rest = some rest →
      ∃ p', p < p' ∧ p' ≤ b.length ∧ b.drop p' = rest ∧
        parseLoop h b (rounds + 1) p =
          (do receive h (reported (b.drop p)); parseLoop h b rounds p')) ∧
    ((item (b.drop p)).2.rest = none →
      parseLoop h b (rounds + 1) p =
        (do receive h (reported (b.drop p)); Parse.fail .frameEncoding)) := by
  have hcons := List.drop_eq_getElem_cons hp
  have hfirst : (elem : Reader UInt8 Error UInt8) b p = .ok (b[p], p + 1) := by
    rw [elem, List.getElem?_eq_getElem hp]
  have hhead : (b.drop p).head? = some b[p] := by rw [hcons, List.head?_cons]
  unfold reported item
  rw [parseLoop, if_pos hp, hfirst, hhead]
  by_cases hzero : b[p] = 0
  · -- a run of padding, of at least the byte at the position
    have hrun : 0 < paddingRun b p := by
      rw [paddingRun, hcons, List.takeWhile_cons_of_pos (by simp [hzero])]
      exact Nat.succ_pos _
    have hle : paddingRun b p ≤ b.length - p := by
      rw [← List.length_drop]
      exact (List.takeWhile_prefix _).length_le
    rw [if_pos (by rw [hzero])]
    refine ⟨?_, ?_⟩
    · rintro rest ⟨⟩
      refine ⟨p + paddingRun b p, by omega, by omega, List.drop_drop.symm, ?_⟩
      simp [Parse.read, hzero, receive, paddingRun]
    · rintro ⟨⟩
  · rw [if_neg (by simpa using hzero)]
    have htyp := readV_reads Error.frameEncoding b p hp.le
    have hstep : ∀ {β : Type} (k : UInt8 × ℕ → Parse σ β),
        (Parse.read (Except.ok (b[p], p + 1)) >>= k) = k (b[p], p + 1) := fun k => rfl
    rw [hstep]
    dsimp only
    rw [if_neg hzero]
    cases hq : varint (b.drop p) with
    | none =>
      rw [hq] at htyp
      rw [show readV Error.frameEncoding b p = .error (.refused .frameEncoding) from htyp]
      refine ⟨?_, ?_⟩
      · rintro rest ⟨⟩
      · intro _
        rfl
    | some y =>
      rcases y with ⟨typ, rest⟩
      rw [hq] at htyp
      rcases htyp with ⟨q, hle, hlen, hrest, hr⟩
      have hshrinks := readV_shrinks hq
      rw [← hrest, List.length_drop, List.length_drop] at hshrinks
      have hbody := parseFrameBody_does h typ hlen
      rw [hr, ← hrest]
      refine ⟨?_, ?_⟩
      · intro rest' (hrest' : (body typ (b.drop q)).rest = some rest')
        rcases hbody.within rest' hrest' with ⟨p', hle', hlen', hdrop⟩
        refine ⟨p', by omega, hlen', hdrop, ?_⟩
        have hpos := position_of_drop hlen' hdrop
        simp only [Parse.read, pure_bind, hbody.eq, emit, hrest', hpos, receive, bind_assoc]
      · intro (hnone : (body typ (b.drop q)).rest = none)
        simp only [Parse.read, pure_bind, hbody.eq, emit, hnone, receive, bind_assoc, fail_bind]

/-- The loop makes the calls of the complete frames, and of what is left after them. -/
theorem parseLoop_eq (h : FrameHandler σ) {src last : Bytes} {fs : List Frame}
    (hd : Decodes src fs last) (hlast : Ends last) {rounds : ℕ} (hp : p ≤ b.length)
    (hsrc : b.drop p = src) (hrounds : b.length - p < rounds) :
    parseLoop h b rounds p = (do fs.forM (receive h); finish h last) := by
  induction hd generalizing rounds p with
  | nil src =>
    subst hsrc
    rcases rounds with _ | rounds
    · omega
    by_cases hend : b.drop p = []
    · have hlen : ¬ p < b.length := Nat.not_lt.mpr (List.drop_eq_nil_iff.mp hend)
      rw [parseLoop, if_neg hlen, finish, if_pos hend]
      rfl
    · have hlen : p < b.length := Nat.lt_of_not_le (mt List.drop_eq_nil_of_le hend)
      rw [(parseLoop_round h rounds hlen).2 (hlast.resolve_left hend), finish, if_neg hend]
      rfl
  | cons hne hrest _ ih =>
    subst hsrc
    rcases rounds with _ | rounds
    · omega
    have hlen : p < b.length := Nat.lt_of_not_le (mt List.drop_eq_nil_of_le hne)
    rcases (parseLoop_round h rounds hlen).1 _ hrest with ⟨p', hlt, hlen', hdrop, heq⟩
    rw [heq, ih hlast hlen' hdrop (by omega)]
    simp

theorem parseFrames_eq (h : FrameHandler σ) {payload last : Bytes} {fs : List Frame}
    (hd : Decodes payload fs last) (hlast : Ends last) :
    parseFrames h payload = (do fs.forM (receive h); finish h last) :=
  parseLoop_eq h hd hlast (Nat.zero_le _) List.drop_zero (by omega)

/-- Every payload is complete frames and what is left after them. -/
theorem exists_decodes (payload : Bytes) : ∃ fs last, Decodes payload fs last ∧ Ends last := by
  induction hn : payload.length using Nat.strong_induction_on generalizing payload with
  | _ n ih =>
    by_cases hends : Ends payload
    · exact ⟨[], payload, .nil payload, hends⟩
    have hne : payload ≠ [] := fun h => hends (.inl h)
    rcases Option.ne_none_iff_exists'.mp fun h => hends (.inr h) with ⟨rest, hrest⟩
    have hpos : 0 < payload.length := List.length_pos_iff.mpr hne
    let h : FrameHandler Unit := ⟨fun s _ => (s, none), fun _ _ => none⟩
    rcases (parseLoop_round h 0 hpos).1 rest hrest with ⟨p', hlt, hlen, hdrop, -⟩
    have hshorter : rest.length < n := by
      rw [← hdrop, List.length_drop]
      omega
    rcases ih rest.length hshorter rest rfl with ⟨fs, last, hd, hlast⟩
    exact ⟨_, last, .cons hne hrest hd, hlast⟩

end FrameParser

end Quic
