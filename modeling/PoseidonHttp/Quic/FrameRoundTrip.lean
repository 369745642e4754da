import PoseidonHttp.Quic.FrameLayout

/-!
# What the frame writers write is parsed back

`quic/frame_write.go`. Each writer appends one frame; its definition here is the bytes it
appends. Frames have no length of their own, so a parser that is off by one in one of them
misreads all that follow: `item_append` says for every written frame that exactly its bytes are
taken, whatever stands after them, and the payload follows by induction.
-/

namespace Quic

open Header (Bytes)
open Cursor (Parser bind_eq front_append)

/-! ## The writers -/

def appendPadding (n : ℕ) : Bytes := List.replicate n 0

def appendPing : Bytes := [UInt8.ofNat framePing]

def appendHandshakeDone : Bytes := [UInt8.ofNat frameHandshakeDone]

def appendResetStream (streamID errCode finalSize : ℕ) : Bytes :=
  UInt8.ofNat frameResetStream :: (appendV streamID ++ appendV errCode ++ appendV finalSize)

def appendStopSending (streamID errCode : ℕ) : Bytes :=
  UInt8.ofNat frameStopSending :: (appendV streamID ++ appendV errCode)

def appendCrypto (offset : ℕ) (data : Bytes) : Bytes :=
  UInt8.ofNat frameCrypto :: (appendV offset ++ appendV data.length ++ data)

def appendNewToken (token : Bytes) : Bytes :=
  UInt8.ofNat frameNewToken :: (appendV token.length ++ token)

/-- The first byte of a STREAM frame. -/
def streamType (offset : ℕ) (fin : Bool) : UInt8 :=
  let typ := UInt8.ofNat frameStreamBase ||| streamLen
  let typ := if offset ≠ 0 then typ ||| streamOff else typ
  if fin then typ ||| streamFin else typ

/-- The offset is written only when it is not zero. -/
def appendStream (streamID offset : ℕ) (fin : Bool) (data : Bytes) : Bytes :=
  streamType offset fin :: (appendV streamID ++ (if offset ≠ 0 then appendV offset else []) ++
    appendV data.length ++ data)

def appendMaxData (maximum : ℕ) : Bytes := UInt8.ofNat frameMaxData :: appendV maximum

def appendMaxStreamData (streamID maximum : ℕ) : Bytes :=
  UInt8.ofNat frameMaxStreamData :: (appendV streamID ++ appendV maximum)

def appendMaxStreams (uni : Bool) (maximum : ℕ) : Bytes :=
  UInt8.ofNat (if uni then frameMaxStreamsUni else frameMaxStreamsBidi) :: appendV maximum

def appendDataBlocked (limit : ℕ) : Bytes := UInt8.ofNat frameDataBlocked :: appendV limit

def appendStreamDataBlocked (streamID limit : ℕ) : Bytes :=
  UInt8.ofNat frameStreamDataBlocked :: (appendV streamID ++ appendV limit)

def appendStreamsBlocked (uni : Bool) (limit : ℕ) : Bytes :=
  UInt8.ofNat (if uni then frameStreamsBlockedUni else frameStreamsBlockedBidi) :: appendV limit

def appendRetireConnectionID (seq : ℕ) : Bytes :=
  UInt8.ofNat frameRetireConnectionID :: appendV seq

def appendPathResponse (data : Vector UInt8 8) : Bytes :=
  UInt8.ofNat framePathResponse :: data.toList

/-- The frame of an application has no frame type. -/
def appendConnectionClose (app : Bool) (errCode frameType : ℕ) (reason : Bytes) : Bytes :=
  (if app then UInt8.ofNat frameConnectionCloseApp :: appendV errCode
    else UInt8.ofNat frameConnectionClose :: (appendV errCode ++ appendV frameType)) ++
    appendV reason.length ++ reason

/-! ## Written frames -/

/-- A call of one of the writers. -/
inductive Written where
  | ping
  | handshakeDone
  | ack (largestAcked ackDelay firstAckRange : ℕ) (ranges : List AckRange)
  | resetStream (streamID errCode finalSize : ℕ)
  | stopSending (streamID errCode : ℕ)
  | crypto (offset : ℕ) (data : Bytes)
  | newToken (token : Bytes)
  | stream (streamID offset : ℕ) (fin : Bool) (data : Bytes)
  | maxData (maximum : ℕ)
  | maxStreamData (streamID maximum : ℕ)
  | maxStreams (uni : Bool) (maximum : ℕ)
  | dataBlocked (limit : ℕ)
  | streamDataBlocked (streamID limit : ℕ)
  | streamsBlocked (uni : Bool) (limit : ℕ)
  | retireConnectionID (seq : ℕ)
  | pathResponse (data : Vector UInt8 8)
  | connectionClose (app : Bool) (errCode frameType : ℕ) (reason : Bytes)

namespace Written

def append : Written → Bytes
  | .ping => appendPing
  | .handshakeDone => appendHandshakeDone
  | .ack largest delay first ranges => appendAck largest delay first ranges
  | .resetStream id errCode finalSize => appendResetStream id errCode finalSize
  | .stopSending id errCode => appendStopSending id errCode
  | .crypto offset data => appendCrypto offset data
  | .newToken token => appendNewToken token
  | .stream id offset fin data => appendStream id offset fin data
  | .maxData maximum => appendMaxData maximum
  | .maxStreamData id maximum => appendMaxStreamData id maximum
  | .maxStreams uni maximum => appendMaxStreams uni maximum
  | .dataBlocked limit => appendDataBlocked limit
  | .streamDataBlocked id limit => appendStreamDataBlocked id limit
  | .streamsBlocked uni limit => appendStreamsBlocked uni limit
  | .retireConnectionID seq => appendRetireConnectionID seq
  | .pathResponse data => appendPathResponse data
  | .connectionClose app errCode frameType reason =>
    appendConnectionClose app errCode frameType reason

/-- The type of the frame. -/
def typ : Written → ℕ
  | .ping => framePing
  | .handshakeDone => frameHandshakeDone
  | .ack .. => frameACK
  | .resetStream .. => frameResetStream
  | .stopSending .. => frameStopSending
  | .crypto .. => frameCrypto
  | .newToken _ => frameNewToken
  | .stream _ offset fin _ => (streamType offset fin).toNat
  | .maxData _ => frameMaxData
  | .maxStreamData .. => frameMaxStreamData
  | .maxStreams uni _ => if uni then frameMaxStreamsUni else frameMaxStreamsBidi
  | .dataBlocked _ => frameDataBlocked
  | .streamDataBlocked .. => frameStreamDataBlocked
  | .streamsBlocked uni _ => if uni then frameStreamsBlockedUni else frameStreamsBlockedBidi
  | .retireConnectionID _ => frameRetireConnectionID
  | .pathResponse _ => framePathResponse
  | .connectionClose app .. => if app then frameConnectionCloseApp else frameConnectionClose

/-- The calls with the values that were written. -/
def calls : Written → List Call
  | .ping => [.onPing]
  | .handshakeDone => [.onHandshakeDone]
  | .ack largest delay first ranges =>
    .onAck largest delay first :: ranges.map fun r => .onAckRange r.gap r.length
  | .resetStream id errCode finalSize => [.onResetStream id errCode finalSize]
  | .stopSending id errCode => [.onStopSending id errCode]
  | .crypto offset data => [.onCrypto offset data]
  | .newToken token => [.onNewToken token]
  | .stream id offset fin data => [.onStream id offset fin data]
  | .maxData maximum => [.onMaxData maximum]
  | .maxStreamData id maximum => [.onMaxStreamData id maximum]
  | .maxStreams uni maximum => [.onMaxStreams uni maximum]
  | .dataBlocked limit => [.onDataBlocked limit]
  | .streamDataBlocked id limit => [.onStreamDataBlocked id limit]
  | .streamsBlocked uni limit => [.onStreamsBlocked uni limit]
  | .retireConnectionID seq => [.onRetireConnectionID seq]
  | .pathResponse data => [.onPathResponse data.toList]
  | .connectionClose app errCode frameType reason =>
    [.onConnectionClose app errCode (if app then 0 else frameType) reason]

/-- The integers that are written, lengths among them. -/
def integers : Written → List ℕ
  | .ping | .handshakeDone | .pathResponse _ => []
  | .ack largest delay first ranges =>
    [largest, delay, ranges.length, first] ++ ranges.flatMap fun r => [r.gap, r.length]
  | .resetStream id errCode finalSize => [id, errCode, finalSize]
  | .stopSending id errCode => [id, errCode]
  | .crypto offset data => [offset, data.length]
  | .newToken token => [token.length]
  | .stream id offset _ data => [id, offset, data.length]
  | .maxData n | .maxStreams _ n | .dataBlocked n | .streamsBlocked _ n
  | .retireConnectionID n => [n]
  | .maxStreamData id n | .streamDataBlocked id n => [id, n]
  | .connectionClose app errCode frameType reason =>
    [errCode, if app then 0 else frameType, reason.length]

/-- All integers fit, and a token is not empty. -/
def Fits (f : Written) : Prop := (∀ n ∈ f.integers, n ≤ maxVarint) ∧ f ≠ .newToken []

end Written

/-! ## Fields are read back -/

namespace Layout

variable {v w x : ℕ} {data : Bytes}

theorem varint_append (hv : v ≤ maxVarint) (rest : Bytes) :
    varint (appendV v ++ rest) = some (v, rest) := readV_appendV hv rest

theorem varint2_append (hv : v ≤ maxVarint) (hw : w ≤ maxVarint) (rest : Bytes) :
    varint2 (appendV v ++ appendV w ++ rest) = some ((v, w), rest) := by
  rw [List.append_assoc, varint2, bind_eq (varint_append hv _),
    bind_eq (varint_append hw _)]
  rfl

theorem varint3_append (hv : v ≤ maxVarint) (hw : w ≤ maxVarint) (hx : x ≤ maxVarint)
    (rest : Bytes) :
    varint3 (appendV v ++ appendV w ++ appendV x ++ rest) = some ((v, w, x), rest) := by
  rw [List.append_assoc, List.append_assoc, varint3, bind_eq (varint_append hv _),
    bind_eq (varint_append hw _), bind_eq (varint_append hx _)]
  rfl

theorem varBytes_append (hlen : data.length ≤ maxVarint) (rest : Bytes) :
    varBytes (appendV data.length ++ (data ++ rest)) = some (data, rest) := by
  rw [varBytes, bind_eq (varint_append hlen _)]
  exact front_append rfl rest

theorem crypto_append (hv : v ≤ maxVarint) (hlen : data.length ≤ maxVarint) (rest : Bytes) :
    crypto (appendV v ++ (appendV data.length ++ (data ++ rest))) = some ((v, data), rest) := by
  rw [crypto, bind_eq (varint_append hv _), bind_eq (varBytes_append hlen _)]
  rfl

theorem newToken_append (hlen : data.length ≤ maxVarint) (hne : data ≠ []) (rest : Bytes) :
    newToken (appendV data.length ++ (data ++ rest)) = some (data, rest) := by
  rw [newToken, bind_eq (varBytes_append hlen _),
    if_neg (by rwa [List.length_eq_zero_iff])]
  rfl

/-- The flags of the first byte tell which fields were written. -/
theorem streamType_flags (offset : ℕ) (fin : Bool) :
    (streamType offset fin &&& streamOff ≠ 0 ↔ offset ≠ 0) ∧
    streamType offset fin &&& streamLen ≠ 0 ∧
    (streamType offset fin &&& streamFin != 0) = fin ∧
    frameStreamBase ≤ (streamType offset fin).toNat ∧
    (streamType offset fin).toNat ≤ frameStreamMax := by
  by_cases hoffset : offset = 0 <;> cases fin <;> simp [streamType, hoffset] <;> decide

theorem stream_append (hv : v ≤ maxVarint) (hw : w ≤ maxVarint)
    (hlen : data.length ≤ maxVarint) (fin : Bool) (rest : Bytes) :
    stream (streamType w fin) (appendV v ++ ((if w ≠ 0 then appendV w else []) ++
      (appendV data.length ++ (data ++ rest)))) = some ((v, w, data), rest) := by
  rcases streamType_flags w fin with ⟨hoff, hflag, -, -, -⟩
  rw [stream, bind_eq (varint_append hv _), if_pos hflag]
  by_cases hzero : w ≠ 0
  · rw [if_pos (hoff.mpr hzero), if_pos hzero, bind_eq (varint_append hw _),
      bind_eq (varBytes_append hlen _)]
    rfl
  · have hw0 : w = 0 := not_not.mp hzero
    rw [if_neg (mt hoff.mp hzero), if_neg hzero, List.nil_append,
      bind_eq (show (pure 0 : Parser UInt8 ℕ) _ = some (0, _) from rfl),
      bind_eq (varBytes_append hlen _), hw0]
    rfl

theorem connectionClose_append (app : Bool) (hv : v ≤ maxVarint)
    (hw : (if app then 0 else w) ≤ maxVarint) (hlen : data.length ≤ maxVarint) (rest : Bytes) :
    connectionClose app (appendV v ++ ((if app then [] else appendV w) ++
      (appendV data.length ++ (data ++ rest)))) =
        some ((v, if app then 0 else w, data), rest) := by
  rw [connectionClose, bind_eq (varint_append hv _)]
  cases app with
  | true =>
    rw [if_pos rfl, if_pos rfl, if_pos rfl, List.nil_append,
      bind_eq (show (pure 0 : Parser UInt8 ℕ) _ = some (0, _) from rfl),
      bind_eq (varBytes_append hlen _)]
    rfl
  | false =>
    rw [if_neg Bool.false_ne_true] at hw
    rw [if_neg Bool.false_ne_true, if_neg Bool.false_ne_true, if_neg Bool.false_ne_true,
      bind_eq (varint_append hw _), bind_eq (varBytes_append hlen _)]
    rfl

theorem single_eq {α : Type} {q : Parser UInt8 α} {f : α → Call} {src rest : Bytes} {x : α}
    (h : q src = some (x, rest)) : single q f src = ⟨[f x], some rest⟩ := by
  rw [single, h]

theorem ackRanges_append {ranges : List AckRange}
    (h : ∀ r ∈ ranges, r.gap ≤ maxVarint ∧ r.length ≤ maxVarint) (rest : Bytes) :
    ackRanges ranges.length
      ((ranges.flatMap fun r => appendV r.gap ++ appendV r.length) ++ rest) =
        ⟨ranges.map fun r => .onAckRange r.gap r.length, some rest⟩ := by
  induction ranges with
  | nil => rfl
  | cons r ranges ih =>
    have hr := h r List.mem_cons_self
    have hrest := ih fun r' hr' => h r' (List.mem_cons_of_mem r hr')
    rw [List.flatMap_cons, List.append_assoc, List.length_cons, ackRanges,
      single_eq (varint2_append hr.1 hr.2 _)]
    simp only [Outcome.andThen, hrest, List.map_cons, List.singleton_append]

/-- A type of one byte. -/
theorem item_type {t : ℕ} (hpos : 0 < t) (ht : t ≤ 63) (src : Bytes) :
    item (UInt8.ofNat t :: src) = (some t, body t src) := by
  have hread : varint (UInt8.ofNat t :: src) = some (t, src) := by
    have hmax : maxVarint = 2 ^ 62 - 1 := rfl
    have happend := varint_append (v := t) (by omega) src
    rwa [appendV, writeVarint, if_pos ht] at happend
  have hzero : UInt8.ofNat t ≠ 0 := by
    intro h
    have hnat : (UInt8.ofNat t).toNat = t := by
      exact Nat.mod_eq_of_lt (by omega)
    rw [h] at hnat
    simp at hnat
    omega
  rw [item, if_neg (by simpa using hzero), hread]

end Layout

/-! ## Frames are read back -/

namespace Written

open Layout

/-- A frame whose first byte is its type and whose fields are read back. -/
theorem item_eq {t : ℕ} {src : Bytes} {o : Outcome} (hpos : 0 < t) (ht : t ≤ 63)
    (h : body t src = o) : item (UInt8.ofNat t :: src) = (some t, o) := by
  rw [item_type hpos ht, h]

theorem ack_append {largest delay first : ℕ} {ranges : List AckRange}
    (hf : (Written.ack largest delay first ranges).Fits) (rest : Bytes) :
    Layout.ack false (appendV largest ++ (appendV delay ++ (appendV ranges.length ++
      (appendV first ++ ((ranges.flatMap fun r => appendV r.gap ++ appendV r.length) ++ rest))))) =
        ⟨(Written.ack largest delay first ranges).calls, some rest⟩ := by
  have hfits := hf.1
  simp only [integers, List.cons_append, List.nil_append, List.forall_mem_cons,
    List.forall_mem_flatMap] at hfits
  rcases hfits with ⟨hlargest, hdelay, hcount, hfirst, hranges⟩
  have hhead : ∀ src, ackHead (appendV largest ++ (appendV delay ++ (appendV ranges.length ++
      (appendV first ++ src)))) = some ((largest, delay, ranges.length, first), src) := by
    intro src
    rw [ackHead, bind_eq (varint_append hlargest _),
      bind_eq (varint_append hdelay _), bind_eq (varint_append hcount _),
      bind_eq (varint_append hfirst _)]
    rfl
  have hloop := ackRanges_append (fun r hr => ⟨(hranges r hr).1, (hranges r hr).2.1⟩) rest
  simp only [Layout.ack, hhead, Outcome.andThen, hloop, Bool.false_eq_true, if_false,
    List.append_nil, List.singleton_append, calls]

/-- Exactly the bytes of a written frame are taken. -/
theorem item_append {f : Written} (hf : f.Fits) (rest : Bytes) :
    item (f.append ++ rest) = (some f.typ, ⟨f.calls, some rest⟩) := by
  have hfits := hf.1
  cases f <;> simp only [integers, List.forall_mem_cons] at hfits
  case ping | handshakeDone => exact item_eq (by decide) (by decide) rfl
  case ack largest delay first ranges =>
    simp only [append, appendAck, List.cons_append, List.append_assoc]
    exact item_eq (by decide) (by decide) (ack_append hf rest)
  case resetStream id errCode finalSize =>
    rcases hfits with ⟨hid, hcode, hsize, -⟩
    exact item_eq (by decide) (by decide) (single_eq (varint3_append hid hcode hsize rest))
  case stopSending id n | maxStreamData id n | streamDataBlocked id n =>
    exact item_eq (by decide) (by decide) (single_eq (varint2_append hfits.1 hfits.2.1 rest))
  case crypto offset data =>
    simp only [append, appendCrypto, List.cons_append, List.append_assoc]
    exact item_eq (by decide) (by decide) (single_eq (crypto_append hfits.1 hfits.2.1 rest))
  case newToken token =>
    have hne : token ≠ [] := fun h => hf.2 (by rw [h])
    simp only [append, appendNewToken, List.cons_append, List.append_assoc]
    exact item_eq (by decide) (by decide) (single_eq (newToken_append hfits.1 hne rest))
  case stream id offset fin data =>
    rcases hfits with ⟨hid, hoffset, hlen, -⟩
    rcases streamType_flags offset fin with ⟨-, -, hfin, hbase, hmax⟩
    have hfields := stream_append hid hoffset hlen fin rest
    simp only [append, appendStream, List.cons_append, List.append_assoc]
    rw [← UInt8.ofNat_toNat (x := streamType offset fin)]
    refine item_eq ?_ ?_ ?_
    · exact Nat.lt_of_lt_of_le (by decide) hbase
    · exact hmax.trans (by decide)
    · rw [body, if_pos ⟨hbase, hmax⟩, UInt8.ofNat_toNat, single_eq hfields, hfin]
      rfl
  case maxData n | dataBlocked n | retireConnectionID n =>
    exact item_eq (by decide) (by decide) (single_eq (varint_append hfits.1 rest))
  case maxStreams uni n | streamsBlocked uni n =>
    cases uni <;> exact item_eq (by decide) (by decide) (single_eq (varint_append hfits.1 rest))
  case pathResponse data =>
    exact item_eq (by decide) (by decide) (single_eq (front_append (by simp) rest))
  case connectionClose app errCode frameType reason =>
    rcases hfits with ⟨hcode, htype, hlen, -⟩
    have hfields := connectionClose_append app hcode htype hlen rest
    cases app with
    | true =>
      simp only [append, appendConnectionClose, if_true, List.cons_append, List.append_assoc]
      exact item_eq (by decide) (by decide) (single_eq hfields)
    | false =>
      simp only [append, appendConnectionClose, Bool.false_eq_true, if_false, List.cons_append,
        List.append_assoc]
      exact item_eq (by decide) (by decide) (single_eq hfields)

end Written

/-! ## Payloads -/

namespace Layout

/-- What is left at the end is reported by no call, or it is an ACK frame that is cut off after
its ranges have begun. -/
def CutShort (last : Bytes) : Prop :=
  (reported last).2 = [] ∨
    ((reported last).1 = some frameACK ∨ (reported last).1 = some frameACKECN) ∧
      ∃ largest delay first, ∃ ranges : List AckRange,
        (reported last).2 =
          .onAck largest delay first :: ranges.map fun r => .onAckRange r.gap r.length

/-- Nothing is reported before it is complete. -/
def Plain (o : Outcome) : Prop := o.rest = none → o.calls = []

theorem Plain.ite {c : Prop} [Decidable c] {o o' : Outcome} (h : Plain o) (h' : Plain o') :
    Plain (if c then o else o') := by
  split_ifs
  · exact h
  · exact h'

theorem single_plain {α : Type} (q : Parser UInt8 α) (f : α → Call) (src : Bytes) :
    Plain (single q f src) := by
  intro h
  unfold single at h ⊢
  cases hq : q src with
  | none => rfl
  | some y =>
    rw [hq] at h
    cases h

theorem ackRanges_calls (count : ℕ) (src : Bytes) :
    ∃ ranges : List AckRange,
      (ackRanges count src).calls = ranges.map fun r => .onAckRange r.gap r.length := by
  induction count generalizing src with
  | zero => exact ⟨[], rfl⟩
  | succ count ih =>
    unfold ackRanges single
    cases varint2 src with
    | none => exact ⟨[], rfl⟩
    | some y =>
      rcases y with ⟨⟨gap, length⟩, rest⟩
      rcases ih rest with ⟨ranges, hranges⟩
      refine ⟨⟨gap, length⟩ :: ranges, ?_⟩
      simp [Outcome.andThen, hranges]

variable {src : Bytes}

theorem ack_incomplete {ecn : Bool} (h : (ack ecn src).rest = none) :
    (ack ecn src).calls = [] ∨ ∃ largest delay first, ∃ ranges : List AckRange,
      (ack ecn src).calls =
        .onAck largest delay first :: ranges.map fun r => .onAckRange r.gap r.length := by
  unfold ack at h ⊢
  cases hhead : ackHead src with
  | none => exact .inl rfl
  | some y =>
    rcases y with ⟨⟨largest, delay, rangeCount, first⟩, rest⟩
    right
    rcases ackRanges_calls rangeCount rest with ⟨ranges, hranges⟩
    refine ⟨largest, delay, first, ranges, ?_⟩
    rw [hhead] at h
    simp only [Outcome.andThen, List.singleton_append] at h ⊢
    congr 1
    cases hrest : (ackRanges rangeCount rest).rest with
    | none => exact hranges
    | some rest' =>
      simp only [hrest] at h ⊢
      cases ecn with
      | false => cases h
      | true => rw [if_pos rfl, single_plain _ _ _ h, List.append_nil, hranges]

theorem body_incomplete {typ : ℕ} (h : (body typ src).rest = none) :
    (body typ src).calls = [] ∨ (typ = frameACK ∨ typ = frameACKECN) ∧
      ∃ largest delay first, ∃ ranges : List AckRange, (body typ src).calls =
        .onAck largest delay first :: ranges.map fun r => .onAckRange r.gap r.length := by
  by_cases hack : typ = frameACK ∨ typ = frameACKECN
  · have hbody : body typ src = ack (typ == frameACKECN) src := by
      rcases hack with rfl | rfl <;> rfl
    rw [hbody] at h ⊢
    exact (ack_incomplete h).imp id fun hcalls => ⟨hack, hcalls⟩
  · left
    have hplain : Plain (body typ src) := by
      unfold body
      rw [if_neg hack]
      repeat' apply Plain.ite
      all_goals first
        | exact single_plain _ _ _
        | exact fun _ => rfl
        | exact fun h => nomatch h
    exact hplain h

theorem Ends.cutShort {last : Bytes} (h : Ends last) : CutShort last := by
  unfold CutShort reported
  rcases h with rfl | h
  · exact .inl rfl
  unfold item at h ⊢
  split_ifs with hzero
  · rw [if_pos hzero] at h
    cases h
  · rw [if_neg hzero] at h
    cases hq : varint last with
    | none => exact .inl rfl
    | some y =>
      rw [hq] at h
      exact (body_incomplete h).imp id fun ⟨htyp, hcalls⟩ => ⟨by simpa using htyp, hcalls⟩

end Layout

namespace Written

open Layout FrameParser

/-- Frames written one after another, and padding. -/
def payload (fs : List Written) (padding : ℕ) : Bytes :=
  fs.flatMap append ++ appendPadding padding

def frame (f : Written) : Frame := (some f.typ, f.calls)

/-- The run of padding, if there is any. -/
def paddingFrames (padding : ℕ) : List Frame :=
  if padding = 0 then [] else [(none, [.onPadding padding])]

theorem item_padding {n : ℕ} (hn : n ≠ 0) :
    item (appendPadding n) = (none, ⟨[.onPadding n], some []⟩) := by
  have hhead : (appendPadding n).head? = some 0 := by
    rw [appendPadding, List.head?_replicate, if_neg hn]
  have hrun : (appendPadding n).takeWhile (· == 0) = appendPadding n := by
    simp [appendPadding]
  have hlen : (appendPadding n).length = n := List.length_replicate
  rw [item, if_pos hhead]
  simp only [hrun, hlen, List.drop_eq_nil_of_le hlen.le]

theorem append_ne_nil (f : Written) : f.append ≠ [] := by
  cases f with
  | connectionClose app => cases app <;> exact List.cons_ne_nil _ _
  | _ => exact List.cons_ne_nil _ _

/-- A written payload is its frames, with nothing left over. -/
theorem decodes_payload {fs : List Written} (hfs : ∀ f ∈ fs, f.Fits) (padding : ℕ) :
    Decodes (payload fs padding) (fs.map frame ++ paddingFrames padding) [] := by
  induction fs with
  | nil =>
    unfold payload paddingFrames
    by_cases hzero : padding = 0
    · rw [hzero]
      exact .nil []
    have hitem := item_padding hzero
    have hne : appendPadding padding ≠ [] := by
      rw [appendPadding, ne_eq, List.replicate_eq_nil_iff]
      exact hzero
    have hone := Decodes.cons hne (congrArg (fun i => i.2.rest) hitem) (.nil [])
    rw [reported, hitem] at hone
    rw [if_neg hzero]
    exact hone
  | cons f fs ih =>
    have hrest := ih fun f' hf' => hfs f' (List.mem_cons_of_mem f hf')
    have hitem := item_append (hfs f List.mem_cons_self) (payload fs padding)
    have hpayload : payload (f :: fs) padding = f.append ++ payload fs padding := by
      simp only [payload, List.flatMap_cons, List.append_assoc]
    have hne : f.append ++ payload fs padding ≠ [] := by
      intro h
      exact f.append_ne_nil (List.append_eq_nil_iff.mp h).1
    have hone := Decodes.cons hne (congrArg (fun i => i.2.rest) hitem) hrest
    rw [reported, hitem] at hone
    rw [hpayload]
    exact hone

end Written

/-! ## How a parse ends -/

namespace FrameParser

open Layout

variable {σ α β : Type}

/-- The result and the handler's state after a parse. -/
def exec (x : Parse σ α) (s : σ) : Except Halt α × σ := x.run.run s

/-- The code has no fault of its own: it ends with a result or an error. -/
def Sound (x : Parse σ α) : Prop :=
  ∀ s halt, (exec x s).1 = .error halt → ∃ err, halt = .stop (.refused err)

theorem exec_bind (x : Parse σ α) (k : α → Parse σ β) (s : σ) :
    exec (x >>= k) s =
      match exec x s with
      | (.ok a, s) => exec (k a) s
      | (.error halt, s) => (.error halt, s) := by
  show (ExceptT.bindCont k (x.run.run s).1).run (x.run.run s).2 = _
  unfold exec
  rcases x.run.run s with ⟨r, s'⟩
  cases r <;> rfl

theorem Sound.pure (a : α) : Sound (pure a : Parse σ α) := by
  rintro s halt ⟨⟩

theorem Sound.fail (err : Error) : Sound (Parse.fail err : Parse σ α) := by
  rintro s halt ⟨⟩
  exact ⟨err, rfl⟩

theorem Sound.bind {x : Parse σ α} {k : α → Parse σ β} (hx : Sound x) (hk : ∀ a, Sound (k a)) :
    Sound (x >>= k) := by
  intro s halt h
  rw [exec_bind] at h
  have hfirst := hx s
  rcases hres : exec x s with ⟨r, s'⟩
  rw [hres] at h hfirst
  cases r with
  | ok a => exact hk a s' halt h
  | error halt' =>
    cases h
    exact hfirst halt rfl

theorem Sound.forM {γ : Type} {f : γ → Parse σ Unit} (hf : ∀ c, Sound (f c)) (cs : List γ) :
    Sound (cs.forM f) := by
  induction cs with
  | nil => exact .pure ()
  | cons c cs ih => exact (hf c).bind fun _ => ih

theorem check_sound (err : Option Error) : Sound (Parse.check err : Parse σ Unit) := by
  cases err with
  | none => exact .pure ()
  | some err => exact .fail err

theorem call_sound (h : FrameHandler σ) (c : Call) : Sound (h.call c) := by
  intro s halt hend
  exact check_sound (h.on s c).2 (h.on s c).1 halt hend

theorem receive_sound (h : FrameHandler σ) (f : Frame) : Sound (receive h f) := by
  have hcalls : Sound (f.2.forM h.call) := .forM (call_sound h) f.2
  rcases f with ⟨typ, calls⟩
  cases typ with
  | none => exact hcalls
  | some typ =>
    have hpermit : Sound (h.permit typ) := by
      intro s halt hend
      exact check_sound (h.permitInSpace s typ) s halt hend
    exact hpermit.bind fun _ => hcalls

theorem finish_sound (h : FrameHandler σ) (last : Bytes) : Sound (finish h last) := by
  unfold finish
  split_ifs
  · exact .pure ()
  · exact (receive_sound h _).bind fun _ => .fail _

variable {h : FrameHandler σ}

/-- What is left over is never accepted. -/
theorem finish_ok {last : Bytes} {s : σ}
    (hok : (exec (finish h last) s).1 = .ok ()) : last = [] := by
  by_contra hne
  rw [finish, if_neg hne, exec_bind] at hok
  rcases hres : exec (receive h (reported last)) s with ⟨r, s'⟩
  rw [hres] at hok
  cases r <;> cases hok

/-- A handler that returns no error. -/
structure Accepts (h : FrameHandler σ) : Prop where
  on : ∀ s c, (h.on s c).2 = none
  permit : ∀ s typ, h.permitInSpace s typ = none

/-- The handler's state after some calls. -/
def after (h : FrameHandler σ) (calls : List Call) (s : σ) : σ :=
  calls.foldl (fun s c => (h.on s c).1) s

theorem exec_calls (ha : Accepts h) (calls : List Call) (s : σ) :
    exec (calls.forM h.call) s = (.ok (), after h calls s) := by
  induction calls generalizing s with
  | nil => rfl
  | cons c calls ih =>
    have hcall : exec (h.call c) s = (.ok (), (h.on s c).1) := by
      show exec (Parse.check (h.on s c).2) (h.on s c).1 = _
      rw [ha.on]
      rfl
    show exec (h.call c >>= fun _ => calls.forM h.call) s = _
    rw [exec_bind, hcall]
    exact ih _

theorem exec_frames (ha : Accepts h) (fs : List Frame) (s : σ) :
    exec (fs.forM (receive h)) s = (.ok (), after h (fs.flatMap Prod.snd) s) := by
  induction fs generalizing s with
  | nil => rfl
  | cons f fs ih =>
    have hreceive : exec (receive h f) s = (.ok (), after h f.2 s) := by
      rcases f with ⟨typ, calls⟩
      cases typ with
      | none => exact exec_calls ha calls s
      | some typ =>
        have hpermit : exec (h.permit typ) s = (.ok (), s) := by
          show exec (Parse.check (h.permitInSpace s typ)) s = _
          rw [ha.permit]
          rfl
        show exec (h.permit typ >>= fun _ => calls.forM h.call) s = _
        rw [exec_bind, hpermit]
        exact exec_calls ha calls s
    show exec (receive h f >>= fun _ => fs.forM (receive h)) s = _
    rw [exec_bind, hreceive]
    simp only [ih, after, List.flatMap_cons, List.foldl_append]

end FrameParser

/-! ## Round trip -/

namespace FrameParser

open Layout Written

/-- A handler that notes its calls. -/
def recorder : FrameHandler (List Call) := ⟨fun s c => (s ++ [c], none), fun _ _ => none⟩

/-- A frame that is cut off may be reported all the same: of this ACK frame the one range after
the first is missing. -/
theorem cut_ack_reported :
    exec (parseFrames recorder [0x02, 5, 0, 1, 0]) [] =
        (.error (.stop (.refused .frameEncoding)), [.onAck 5 0 0]) ∧
      (item [0x02, 5, 0, 1, 0]).2.rest = none :=
  ⟨rfl, rfl⟩

/-- Frames that are written one after another, with padding after them, are reported one after
another with the values that were written; a handler that accepts them is called for each of
them once, and the parse succeeds.

Of any payload the complete frames at its start are reported, in order. If that is not all of it
the parse fails; what is left is reported by no call, or it is an ACK frame that is cut off and
of which the part before the cut is reported. There is no read outside of the payload and no
loop without end. -/
theorem parseFrames_round_trip :
    (∀ (fs : List Written) (padding : ℕ), (∀ f ∈ fs, f.Fits) → ∀ {σ : Type} (h : FrameHandler σ),
      parseFrames h (payload fs padding) =
          (fs.map frame ++ paddingFrames padding).forM (receive h) ∧
        (Accepts h → ∀ s, exec (parseFrames h (payload fs padding)) s =
          (.ok (), after h (fs.flatMap calls ++ (paddingFrames padding).flatMap Prod.snd) s))) ∧
    ∀ payload : Bytes, ∃ fs last, Decodes payload fs last ∧ Ends last ∧ CutShort last ∧
      ∀ {σ : Type} (h : FrameHandler σ),
        parseFrames h payload = (do fs.forM (receive h); finish h last) ∧
        ∀ s, ((exec (parseFrames h payload) s).1 = .ok () → last = []) ∧
          (exec (parseFrames h payload) s).1 ≠ .error (.stop .outOfBounds) ∧
          (exec (parseFrames h payload) s).1 ≠ .error .endless := by
  constructor
  · intro fs padding hfs σ h
    have heq := parseFrames_eq h (decodes_payload hfs padding) (.inl rfl)
    have hend : finish h [] = pure () := if_pos rfl
    rw [hend, bind_pure_unit] at heq
    refine ⟨heq, ?_⟩
    intro ha s
    have hcalls : (fs.map frame).flatMap Prod.snd = fs.flatMap calls := by
      rw [List.flatMap_map]
      rfl
    rw [heq, exec_frames ha, List.flatMap_append, hcalls]
  · intro payload
    rcases exists_decodes payload with ⟨fs, last, hd, hlast⟩
    refine ⟨fs, last, hd, hlast, hlast.cutShort, ?_⟩
    intro σ h
    have heq := parseFrames_eq h hd hlast
    have hsound : Sound (parseFrames h payload) := by
      rw [heq]
      exact (Sound.forM (receive_sound h) fs).bind fun _ => finish_sound h last
    refine ⟨heq, ?_⟩
    intro s
    refine ⟨?_, ?_, ?_⟩
    · intro hok
      rw [heq, exec_bind] at hok
      rcases hres : exec (fs.forM (receive h)) s with ⟨r, s'⟩
      rw [hres] at hok
      cases r with
      | ok _ => exact finish_ok hok
      | error halt => cases hok
    all_goals
      intro hfault
      rcases hsound s _ hfault with ⟨err, herr⟩
      cases herr

/-- A STREAM frame, an ACK frame with two ranges and three bytes of padding. -/
theorem parseFrames_round_trip_stream :
    exec (parseFrames recorder (payload [.stream 4 300 true [1, 2, 0], .ack 90 0 10 [⟨3, 5⟩]] 3)) [] =
      (.ok (), [.onStream 4 300 true [1, 2, 0], .onAck 90 0 10, .onAckRange 3 5, .onPadding 3]) := by
  have hfits : ∀ f ∈ [Written.stream 4 300 true [1, 2, 0], .ack 90 0 10 [⟨3, 5⟩]], f.Fits := by
    simp [Fits, integers, maxVarint]
  have haccepts : Accepts recorder := ⟨fun _ _ => rfl, fun _ _ => rfl⟩
  exact (parseFrames_round_trip.1 _ 3 hfits recorder).2 haccepts []

end FrameParser

end Quic
