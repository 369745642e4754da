import Mathlib.Tactic.Ring.RingNF
import PoseidonHttp.Frame.Framer

/-!
# Frames written and read back

A call of a write function and the frame it stands for. `Call.run_spec` says what every
write function does: it refuses and writes nothing, or it writes the header and the
payload of that frame. `readFrame_bytes` and `dispatch_wire` say what the reader makes
of it. Together:

* `roundTrips_iff`: what was written is read back by one call of the matching handler
  exactly if the payload is no longer than the limit (lengths are compared after they
  were cut to 32 bits) and the stream is not 0 once its reserved bit is cleared.
* `reserved_bit_alone_is_refused`: the writers look for stream 0 before they clear
  that bit.
-/

namespace Frame

open Header (Bytes)
open BigEndian (encode length_encode decode_encode_of_lt decode)

/-! ## Calls -/

/-- A call of one of the write functions. -/
inductive Call where
  | data (streamID : UInt32) (endStream : Bool) (data : Bytes)
  | dataPadded (streamID : UInt32) (endStream : Bool) (data : Bytes) (padLen : UInt8)
  | dataV (streamID : UInt32) (endStream : Bool) (bufs : List Bytes)
  | dataVPadded (streamID : UInt32) (endStream : Bool) (bufs : List Bytes) (padLen : UInt8)
  | headers (p : WriteHeadersParams)
  | continuation (streamID : UInt32) (endHeaders : Bool) (blockFragment : Bytes)
  | priority (streamID : UInt32) (p : Priority)
  | rstStream (streamID : UInt32) (code : ErrCode)
  | settings (pairs : List SettingPair)
  | settingsAck
  | pushPromise (streamID promisedID : UInt32) (blockFragment : Bytes) (endHeaders : Bool)
      (padLen : UInt8)
  | ping (ack : Bool) (data : Octets 8)
  | goAway (lastStreamID : UInt32) (code : ErrCode) (debug : Bytes)
  | windowUpdate (streamID increment : UInt32)
  | altSvc (streamID : UInt32) (entries : List AltSvcEntry)

namespace Call

def write (maxFrameSize : ℕ) : Call → Write Unit
  | data streamID endStream body => writeData maxFrameSize streamID endStream body
  | dataPadded streamID endStream body padLen =>
    writeDataPadded maxFrameSize streamID endStream body padLen
  | dataV streamID endStream bufs => writeDataV maxFrameSize streamID endStream bufs
  | dataVPadded streamID endStream bufs padLen =>
    writeDataVPadded maxFrameSize streamID endStream bufs padLen
  | headers p => writeHeaders maxFrameSize p
  | continuation streamID endHeaders blockFragment =>
    writeContinuation maxFrameSize streamID endHeaders blockFragment
  | priority streamID p => writePriority maxFrameSize streamID p
  | rstStream streamID code => writeRSTStream maxFrameSize streamID code
  | settings pairs => writeSettings maxFrameSize pairs
  | settingsAck => writeSettingsAck maxFrameSize
  | pushPromise streamID promisedID blockFragment endHeaders padLen =>
    writePushPromise maxFrameSize streamID promisedID blockFragment endHeaders padLen
  | ping ack body => writePing maxFrameSize ack body
  | goAway lastStreamID code debug => writeGoAway maxFrameSize lastStreamID code debug
  | windowUpdate streamID increment => writeWindowUpdate maxFrameSize streamID increment
  | altSvc streamID entries => writeAltSvc maxFrameSize streamID entries

/-- What the call returns, and all the bytes written after it. -/
def run (maxFrameSize : ℕ) (c : Call) (out : Bytes) : EStateM.Result Error Bytes Unit :=
  (c.write maxFrameSize).run out

/-! ## The frame a call stands for -/

def type : Call → FrameType
  | data .. | dataPadded .. | dataV .. | dataVPadded .. => FrameType.data
  | headers .. => FrameType.headers
  | continuation .. => FrameType.continuation
  | priority .. => FrameType.priority
  | rstStream .. => FrameType.rstStream
  | settings .. | settingsAck => FrameType.settings
  | pushPromise .. => FrameType.pushPromise
  | ping .. => FrameType.ping
  | goAway .. => FrameType.goAway
  | windowUpdate .. => FrameType.windowUpdate
  | altSvc .. => FrameType.altSvc

def flags : Call → Flags
  | data _ endStream _ | dataV _ endStream _ => .when endStream flagEndStream
  | dataPadded _ endStream _ _ | dataVPadded _ endStream _ _ =>
    flagPadded ||| .when endStream flagEndStream
  | headers p => p.flags
  | continuation _ endHeaders _ => .when endHeaders flagEndHeaders
  | settingsAck => flagAck
  | pushPromise _ _ _ endHeaders padLen =>
    .when endHeaders flagEndHeaders ||| .when (padLen ≠ 0) flagPadded
  | ping ack _ => .when ack flagAck
  | priority .. | rstStream .. | settings .. | goAway .. | windowUpdate .. | altSvc .. => 0

def streamID : Call → UInt32
  | data id .. | dataPadded id .. | dataV id .. | dataVPadded id .. | continuation id ..
  | priority id .. | rstStream id .. | pushPromise id .. | windowUpdate id .. => id
  | headers p => p.streamID
  | altSvc id _ => mask31 id
  | settings .. | settingsAck | ping .. | goAway .. => 0

/-- The pad length byte, when there is padding. -/
def padByte (padLen : UInt8) : Bytes := if padLen ≠ 0 then [padLen] else []

def payload : Call → Bytes
  | data _ _ body => body
  | dataPadded _ _ body padLen => [padLen] ++ body ++ zeros padLen
  | dataV _ _ bufs => bufs.flatten
  | dataVPadded _ _ bufs padLen => [padLen] ++ bufs.flatten ++ zeros padLen
  | headers p =>
    padByte p.padLength ++ (p.priority.elim [] putPriority ++ p.blockFragment) ++ zeros p.padLength
  | continuation _ _ blockFragment => blockFragment
  | priority _ p => putPriority p
  | rstStream _ code => putUint32 code
  | settings pairs => pairs.flatMap SettingPair.put
  | settingsAck => []
  | pushPromise _ promisedID blockFragment _ padLen =>
    padByte padLen ++ (putUint31 promisedID ++ blockFragment) ++ zeros padLen
  | ping _ body => body.1
  | goAway lastStreamID code debug => putUint31 lastStreamID ++ putUint32 code ++ debug
  | windowUpdate _ increment => putUint31 (mask31 increment)
  | altSvc _ [e] => encode 2 e.origin.length ++ e.origin ++ e.altValue
  | altSvc _ _ => []

def header (c : Call) : FrameHeader := ⟨uint32 c.payload.length, c.type, c.flags, c.streamID⟩

def bytes (c : Call) : Bytes := c.header.put ++ c.payload

/-- The header as it arrives. -/
def wire (c : Call) : FrameHeader := { c.header with streamID := mask31 c.streamID }

/-- The handler call with the arguments written, 31-bit fields masked. -/
def handlerCall (c : Call) : HandlerCall :=
  match c with
  | data _ _ body => .onData c.wire body 0
  | dataPadded _ _ body padLen => .onData c.wire body padLen
  | dataV _ _ bufs => .onData c.wire bufs.flatten 0
  | dataVPadded _ _ bufs padLen => .onData c.wire bufs.flatten padLen
  | headers p =>
    .onHeaders c.wire p.blockFragment
      (p.priority.map fun prio => { prio with streamDep := mask31 prio.streamDep }) p.padLength
  | continuation _ _ blockFragment => .onContinuation c.wire blockFragment
  | priority _ p => .onPriority c.wire { p with streamDep := mask31 p.streamDep }
  | rstStream _ code => .onRSTStream c.wire code
  | settings pairs => .onSettings c.wire pairs
  | settingsAck => .onSettings c.wire []
  | pushPromise _ promisedID blockFragment _ padLen =>
    .onPushPromise c.wire (mask31 promisedID) blockFragment padLen
  | ping _ body => .onPing c.wire body.1
  | goAway lastStreamID code debug => .onGoAway c.wire (mask31 lastStreamID) code debug
  | windowUpdate _ increment => .onWindowUpdate c.wire (mask31 increment)
  | altSvc _ entries => .onAltSvc c.wire entries

/-- Frames that the reader refuses on stream 0. -/
def onStream : Call → Bool
  | data .. | dataPadded .. | dataV .. | dataVPadded .. | headers .. | continuation ..
  | priority .. | rstStream .. | pushPromise .. => true
  | _ => false

/-- The settings are defined ones, each once; an origin goes with stream 0 only. -/
def InScope : Call → Prop
  | settings pairs => (∀ p ∈ pairs, isDefinedSetting p.id = true) ∧ (pairs.map SettingPair.id).Nodup
  | altSvc id entries => ∀ e ∈ entries, mask31 id = 0 ↔ e.origin ≠ []
  | _ => True

/-! ## What a write function does -/

/-- It refuses and writes nothing, or it writes the frame. -/
def Writes (c : Call) (out : Bytes) (r : EStateM.Result Error Bytes Unit) : Prop :=
  (∃ e, r = .error e out) ∨ r = .ok () (out ++ c.bytes)

variable {M : ℕ} {out : Bytes}

@[simp] theorem run_put (b : Bytes) : (put b).run out = .ok () (out ++ b) := rfl

theorem run_writeBufs (bufs : List Bytes) (out : Bytes) :
    (writeBufs bufs).run out = .ok () (out ++ bufs.flatten) := by
  induction bufs generalizing out with
  | nil => simp [writeBufs]
  | cons b bs ih =>
    by_cases hb : b = [] <;> simp [writeBufs, hb, ih]

theorem run_writeFrame (h : FrameHeader) (payload : Bytes) :
    (writeFrame M h payload).run out =
      if M < h.length then .error .frameTooLarge out else .ok () (out ++ (h.put ++ payload)) := by
  by_cases hM : M < h.length
  · simp [writeFrame, hM]
  · by_cases hp : payload = [] <;> simp [writeFrame, hM, hp]

variable {payload tail : Bytes} {c : Call} {fh h : FrameHeader} {bufs : List Bytes}
  {pairs : List SettingPair} {r : Reader} {padLen : UInt8} {n : ℕ}

theorem sumBufsFrom_eq {acc total : ℕ} (h : sumBufsFrom acc bufs = some total) :
    total = acc + bufs.flatten.length := by
  induction bufs generalizing acc with
  | nil => simpa [sumBufsFrom] using h.symm
  | cons b bs ih =>
    simp only [sumBufsFrom] at h
    split_ifs at h
    rw [ih h, List.flatten_cons, List.length_append, Nat.add_assoc]

theorem sumBufs_eq {total : ℕ} (h : sumBufs bufs = some total) :
    total = bufs.flatten.length := by
  rw [sumBufsFrom_eq h, Nat.zero_add]

theorem sumBufsFrom_of_lt {acc : ℕ} (h : acc + bufs.flatten.length < 2 ^ 63) :
    sumBufsFrom acc bufs = some (acc + bufs.flatten.length) := by
  induction bufs generalizing acc with
  | nil => simp [sumBufsFrom]
  | cons b bs ih =>
    rw [List.flatten_cons, List.length_append] at h ⊢
    rw [sumBufsFrom, if_neg (by omega), ih (by omega), Nat.add_assoc]

theorem sumBufs_of_lt (h : bufs.flatten.length < 2 ^ 63) :
    sumBufs bufs = some bufs.flatten.length := by
  rw [sumBufs, sumBufsFrom_of_lt (by omega), Nat.zero_add]

@[simp] theorem length_putUint32 (v : UInt32) : (putUint32 v).length = 4 :=
  length_encode ..

@[simp] theorem length_putUint31 (v : UInt32) : (putUint31 v).length = 4 := length_putUint32 _

@[simp] theorem drop_putUint31 (v : UInt32) (rest : Bytes) :
    (putUint31 v ++ rest).drop 4 = rest := List.drop_left' (length_putUint31 v)

@[simp] theorem length_putPriority (p : Priority) : (putPriority p).length = 5 := by
  simp [putPriority]

@[simp] theorem length_zeros (padLen : UInt8) : (zeros padLen).length = padLen.toNat := by
  simp [zeros]

/-- A frame written in one go by `writeFrame`. -/
theorem writes_writeFrame (c : Call) (hh : h = c.header) (hp : payload = c.payload) :
    c.Writes out ((writeFrame M h payload).run out) := by
  rw [run_writeFrame]
  split_ifs
  · exact .inl ⟨_, rfl⟩
  · right
    rw [hh, hp]
    rfl

theorem writes_error (e : Error) : c.Writes out (.error e out) := .inl ⟨e, rfl⟩

/-- A check comes first. -/
theorem writes_checked {p : Prop} [Decidable p] {e : Error} {rest : Write Unit}
    (h : ¬ p → c.Writes out (rest.run out)) :
    c.Writes out (EStateM.run (do
      if p then throw e
      rest) out) := by
  by_cases hrefused : p
  · simpa [hrefused] using writes_error _
  · simpa [hrefused] using h hrefused

/-- The pieces put after each other make up the frame. -/
theorem writes_ok {L : ℕ} {pieces : Bytes} (hL : uint32 c.payload.length = L)
    (h : pieces = FrameHeader.put ⟨L, c.type, c.flags, c.streamID⟩ ++ c.payload) :
    c.Writes out (.ok () (out ++ pieces)) := by
  right
  rw [h, bytes, header, hL]

@[simp] theorem length_padByte (padLen : UInt8) :
    (padByte padLen).length = if padLen ≠ 0 then 1 else 0 := by
  unfold padByte
  split_ifs <;> rfl

/-- Padding of length 0 is no padding. -/
@[simp] theorem run_zeros (padLen : UInt8) :
    (if padLen = 0 then pure () else put (zeros padLen) : Write Unit).run out =
      .ok () (out ++ zeros padLen) := by
  split_ifs with hpad
  · subst hpad
    simp [zeros]
  · rfl

/-- What `run_spec` says of a call. -/
def Obeys (c : Call) (M : ℕ) (out : Bytes) : Prop := c.Writes out (c.run M out)

section Calls

variable {streamID : UInt32} {endStream : Bool} {body : Bytes}

theorem writes_dataPadded : (dataPadded streamID endStream body padLen).Obeys M out := by
  refine writes_checked fun _ => writes_checked fun _ => ?_
  have hlen : (dataPadded streamID endStream body padLen).payload.length =
      1 + body.length + padLen.toNat := by
    simp [payload]
    omega
  have hok : (dataPadded streamID endStream body padLen).Writes out _ :=
    writes_ok (congrArg uint32 hlen) rfl
  simpa [type, flags, Call.streamID, payload] using hok

theorem writes_dataV : (dataV streamID endStream bufs).Obeys M out := by
  refine writes_checked fun _ => ?_
  rcases hsum : sumBufs bufs with _ | total
  · exact writes_error _
  refine writes_checked fun _ => ?_
  have hlen : (dataV streamID endStream bufs).payload.length = total := (sumBufs_eq hsum).symm
  have hok : (dataV streamID endStream bufs).Writes out _ := writes_ok rfl rfl
  rw [hlen] at hok
  simpa [run_writeBufs, type, flags, Call.streamID, payload] using hok

/-- Conversions of an `int` to `uint32` do not see that it has wrapped. -/
theorem uint32_int64 {x : ℤ} (hx : x = n) : (int64 x % 2 ^ 32).toNat = uint32 n := by
  simp only [int64, uint32, Int.bmod, hx]
  split_ifs <;> omega

theorem writes_dataVPadded : (dataVPadded streamID endStream bufs padLen).Obeys M out := by
  refine writes_checked fun _ => ?_
  rcases hsum : sumBufs bufs with _ | total
  · exact writes_error _
  refine writes_checked fun _ => ?_
  have hlen : (dataVPadded streamID endStream bufs padLen).payload.length =
      1 + total + padLen.toNat := by
    simp [payload, sumBufs_eq hsum]
    omega
  have hL : (int64 (1 + total + padLen.toNat) % 2 ^ 32).toNat = uint32 (1 + total + padLen.toNat) :=
    uint32_int64 (by push_cast; rfl)
  have hok : (dataVPadded streamID endStream bufs padLen).Writes out _ :=
    writes_ok (hlen ▸ hL.symm) rfl
  simpa [run_writeBufs, type, flags, Call.streamID, payload] using hok

theorem writes_headers (p : WriteHeadersParams) : (headers p).Obeys M out := by
  refine writes_checked fun _ => writes_checked fun _ => ?_
  have hlen : (headers p).payload.length = p.blockFragment.length + p.padLength.toNat +
      (if p.padLength ≠ 0 then 1 else 0) + if p.priority.isSome then 5 else 0 := by
    cases hprio : p.priority <;> simp [payload, hprio] <;> omega
  generalize hL : uint32 (p.blockFragment.length + p.padLength.toNat +
    (if p.padLength ≠ 0 then 1 else 0) + if p.priority.isSome then 5 else 0) = L
  rw [← hlen] at hL
  have hok : (headers p).Writes out _ := writes_ok hL rfl
  simp only [type, flags, Call.streamID, payload, padByte] at hok
  by_cases hfast : p.padLength = 0 ∧ p.priority = none ∧ frameHeaderSize + L ≤ writeBufSize
  · rw [if_pos hfast]
    refine writes_checked fun _ => ?_
    simpa [hfast, zeros] using hok
  · rw [if_neg hfast]
    cases hprio : p.priority <;> by_cases hpad : p.padLength = 0 <;>
      simpa [hprio, hpad, zeros] using hok

theorem writes_pushPromise {promisedID : UInt32} {endHeaders : Bool} :
    (pushPromise streamID promisedID body endHeaders padLen).Obeys M out := by
  refine writes_checked fun _ => writes_checked fun _ => ?_
  have hlen : (pushPromise streamID promisedID body endHeaders padLen).payload.length =
      4 + body.length + padLen.toNat + if padLen ≠ 0 then 1 else 0 := by
    simp [payload]
    omega
  have hok : (pushPromise streamID promisedID body endHeaders padLen).Writes out _ :=
    writes_ok (congrArg uint32 hlen) rfl
  by_cases hpad : padLen = 0 <;>
    simpa [hpad, type, flags, Call.streamID, payload, padByte, zeros] using hok

theorem writes_goAway {lastStreamID : UInt32} {code : ErrCode} {debug : Bytes} :
    (goAway lastStreamID code debug).Obeys M out := by
  refine writes_checked fun _ => ?_
  have hlen : (goAway lastStreamID code debug).payload.length = 8 + debug.length := by
    simp [payload]
    omega
  have hok : (goAway lastStreamID code debug).Writes out _ := writes_ok (congrArg uint32 hlen) rfl
  by_cases hdebug : debug = [] <;>
    simpa [hdebug, type, flags, Call.streamID, payload] using hok

theorem writes_altSvc (entries : List AltSvcEntry) : (altSvc streamID entries).Obeys M out := by
  match entries with
  | [] => exact writes_writeFrame (M := M) (altSvc streamID []) rfl rfl
  | [e] => exact writes_checked fun _ => writes_checked fun _ => writes_writeFrame _ rfl rfl
  | _ :: _ :: _ => exact writes_error _

end Calls

/-- The header of a frame of fixed size. -/
theorem eq_header (c : Call) (h : c.payload.length = n) (hn : n < 2 ^ 32) :
    ⟨n, c.type, c.flags, c.streamID⟩ = c.header := by
  simp only [header, h, uint32, Nat.mod_eq_of_lt hn]

/-- Every write function refuses and writes nothing, or writes the frame. -/
theorem run_spec (c : Call) : c.Obeys M out := by
  cases c with
  | data streamID endStream body => exact writes_checked fun _ => writes_writeFrame _ rfl rfl
  | dataPadded streamID endStream body padLen => exact writes_dataPadded
  | dataV streamID endStream bufs => exact writes_dataV
  | dataVPadded streamID endStream bufs padLen => exact writes_dataVPadded
  | headers p => exact writes_headers p
  | continuation streamID endHeaders blockFragment =>
    exact writes_checked fun _ => writes_writeFrame _ rfl rfl
  | priority streamID p =>
    have hh := eq_header (priority streamID p) (length_putPriority p) (by decide)
    exact writes_checked fun _ => writes_writeFrame _ hh rfl
  | rstStream streamID code =>
    have hh := eq_header (rstStream streamID code) (length_putUint32 code) (by decide)
    exact writes_checked fun _ => writes_writeFrame _ hh rfl
  | settings pairs => exact writes_checked fun _ => writes_writeFrame _ rfl rfl
  | settingsAck => exact writes_writeFrame (M := M) settingsAck rfl rfl
  | pushPromise streamID promisedID fragment endHeaders padLen => exact writes_pushPromise
  | ping ack body =>
    have hh := eq_header (ping ack body) body.2 (by decide)
    exact writes_writeFrame (ping ack body) hh rfl
  | goAway lastStreamID code debug => exact writes_goAway
  | windowUpdate streamID increment =>
    have hh := eq_header (windowUpdate streamID increment) (length_putUint31 _) (by decide)
    exact writes_checked fun _ => writes_writeFrame _ hh rfl
  | altSvc streamID entries => exact writes_altSvc entries

/-! ## What the reader makes of it -/

theorem mask31_toNat (v : UInt32) : (mask31 v).toNat = v.toNat % 2 ^ 31 := by
  exact Nat.and_two_pow_sub_one_eq_mod v.toNat 31

@[simp] theorem mask31_mask31 (v : UInt32) : mask31 (mask31 v) = mask31 v := by
  apply UInt32.toNat_inj.mp
  simp only [mask31_toNat, Nat.mod_mod]

@[simp] theorem readUint32_putUint32 (v : UInt32) : readUint32 (putUint32 v) = v := by
  have hv := v.toNat_lt
  rw [readUint32, putUint32, decode_encode_of_lt (by omega), UInt32.ofNat_toNat]

@[simp] theorem readUint31_putUint31 (v : UInt32) : readUint31 (putUint31 v) = mask31 v := by
  rw [readUint31, putUint31, readUint32_putUint32, mask31_mask31]

@[simp] theorem length_put (h : FrameHeader) : h.put.length = frameHeaderSize := by
  simp [FrameHeader.put, frameHeaderSize]

/-- The header that arrives: 24 bits of the length, 31 of the stream. -/
theorem readFrameHeader_put (h : FrameHeader) :
    readFrameHeader h.put = { h with length := h.length % 2 ^ 24, streamID := mask31 h.streamID } := by
  have h3 : (encode 3 h.length).length = 3 := length_encode 3 _
  have hlength : decode (h.put.take 3) = h.length % 2 ^ 24 := by
    rw [FrameHeader.put, List.append_assoc, List.take_left' h3, BigEndian.decode_encode]
    norm_num
  have hid : h.put.drop 5 = putUint31 h.streamID := by
    exact List.drop_left' (by simp)
  simp only [readFrameHeader, hlength, hid, readUint31_putUint31]
  simp [FrameHeader.put, List.getD]

/-- A header is taken off what it stands before. -/
theorem put_append (h : FrameHeader) (rest : Bytes) :
    (h.put ++ rest).take frameHeaderSize = h.put ∧ (h.put ++ rest).drop frameHeaderSize = rest ∧
      ¬ (h.put ++ rest).length < frameHeaderSize := by
  refine ⟨List.take_left' (length_put h), List.drop_left' (length_put h), ?_⟩
  simp only [List.length_append, length_put]
  omega

/-- `ReadFrame` on a header followed by a payload of the length it announces. -/
theorem readFrame_put (hfh : readFrameHeader h.put = fh) (hlen : fh.length = payload.length)
    (hmax : fh.length ≤ r.maxFrameSize) (hcheck : r.checkFieldBlockContinuity fh = none) :
    r.readFrame (h.put ++ payload ++ tail) =
      match dispatch fh payload with
      | .error e => ⟨r.trackFieldBlock fh, tail, [], some e⟩
      | .ok calls => ⟨r.trackFieldBlock fh, tail, calls, none⟩ := by
  rcases put_append h (payload ++ tail) with ⟨htake, hdrop, hlong⟩
  rw [List.append_assoc]
  unfold Reader.readFrame
  rw [if_neg hlong]
  simp only [htake, hdrop, hfh, hlen, hcheck, List.take_left, List.drop_left]
  refine (if_neg (by omega)).trans ((if_neg (by simp)).trans ?_)
  rfl

theorem stripPadding_zeros (body : Bytes) (padLen : UInt8) :
    stripPadding ([padLen] ++ body ++ zeros padLen) = .ok (body, padLen) := by
  simp [stripPadding]

/-! Which flags are set. -/

theorem has_dataFlags : ∀ endStream : Bool,
    Flags.has (.when endStream flagEndStream) flagPadded = false ∧
      Flags.has (flagPadded ||| .when endStream flagEndStream) flagPadded = true := by
  decide

theorem has_headersFlags : ∀ endStream endHeaders padded prioritized : Bool,
    let flags := Flags.when endStream flagEndStream ||| .when endHeaders flagEndHeaders |||
      .when padded flagPadded ||| .when prioritized flagPriority
    flags.has flagPadded = padded ∧ flags.has flagPriority = prioritized := by
  decide

theorem has_pushPromiseFlags : ∀ endHeaders padded : Bool,
    Flags.has (.when endHeaders flagEndHeaders ||| .when padded flagPadded) flagPadded = padded := by
  decide

/-- A body between its pad length and its padding, or alone. -/
theorem unpadded_padByte (padLen : UInt8) (body : Bytes)
    (hflag : fh.flags.has flagPadded = decide (padLen ≠ 0)) :
    unpadded fh (padByte padLen ++ body ++ zeros padLen) = .ok (body, padLen) := by
  unfold unpadded
  by_cases hpad : padLen = 0
  · simp [hflag, hpad, padByte, zeros]
  · simpa [hflag, hpad, padByte] using stripPadding_zeros body padLen

theorem has_high_bit (b : UInt8) : Flags.has b 0x80 = decide (128 ≤ b.toNat) := by
  have hall : ∀ n : Fin 256, Flags.has (UInt8.ofFin n) 0x80 = decide (128 ≤ n.val) := by
    decide +kernel
  exact hall b.toFin

/-- The first word of a priority section: the exclusive bit above the dependency. -/
theorem toNat_priorityWord (p : Priority) :
    (mask31 p.streamDep ||| if p.exclusive then 0x80000000 else 0).toNat =
      p.streamDep.toNat % 2 ^ 31 + if p.exclusive then 2 ^ 31 else 0 := by
  have hlt : p.streamDep.toNat % 2 ^ 31 < 2 ^ 31 := Nat.mod_lt _ (by decide)
  cases p.exclusive
  · simp [mask31_toNat]
  · have hor := Nat.two_pow_add_eq_or_of_lt hlt 1
    simp only [UInt32.toNat_or, mask31_toNat, if_true]
    rw [Nat.or_comm, Nat.add_comm]
    simpa using hor.symm

/-- The first byte of a word is its top eight bits. -/
theorem getD_putUint32 (v : UInt32) (rest : Bytes) :
    ((putUint32 v ++ rest).getD 0 0).toNat = v.toNat / 2 ^ 24 := by
  have hv := v.toNat_lt
  simp only [putUint32, encode, List.nil_append, List.cons_append, List.getD_cons_zero]
  rw [UInt8.toNat_ofNat']
  omega

theorem parsePriority_putPriority (p : Priority) :
    parsePriority (putPriority p) = { p with streamDep := mask31 p.streamDep } := by
  have hword := toNat_priorityWord p
  have htake : (putPriority p).take 4 = putUint32 _ := List.take_left' (length_putUint32 _)
  have hmask : mask31 (mask31 p.streamDep ||| if p.exclusive then 0x80000000 else 0) =
      mask31 p.streamDep := by
    apply UInt32.toNat_inj.mp
    rw [mask31_toNat, hword, mask31_toNat]
    split_ifs <;> omega
  have hexclusive : Flags.has ((putPriority p).getD 0 0) 0x80 = p.exclusive := by
    rw [has_high_bit, putPriority, getD_putUint32, hword]
    cases p.exclusive <;> simp <;> omega
  have hweight : (putPriority p).getD 4 0 = p.weight := by
    simp [putPriority, List.getD]
  simp only [parsePriority, htake, readUint31, readUint32_putUint32, hmask, hexclusive, hweight]

variable {calls : List HandlerCall}

/-- The check of the stream comes first. -/
theorem checked_stream {rest : Except Error (List HandlerCall)}
    (h : rest = .ok calls) :
    (do
      if fh.streamID = 0 then throw Error.invalidStreamID
      rest) = if fh.streamID = 0 then .error .invalidStreamID else .ok calls := by
  by_cases hid : fh.streamID = 0
  · simp only [hid, if_true]
    rfl
  · simp only [hid, if_false]
    exact h

theorem dispatchData_spec {body : Bytes} (h : unpadded fh payload = .ok (body, padLen)) :
    dispatchData fh payload =
      if fh.streamID = 0 then .error .invalidStreamID else .ok [.onData fh body padLen] := by
  apply checked_stream
  rw [h]
  rfl

theorem dispatchHeaders_spec {block : Bytes} {prio : Option Priority}
    (h : unpadded fh payload = .ok (prio.elim [] putPriority ++ block, padLen))
    (hprio : fh.flags.has flagPriority = prio.isSome) :
    dispatchHeaders fh payload =
      if fh.streamID = 0 then .error .invalidStreamID
      else .ok [.onHeaders fh block
        (prio.map fun p => { p with streamDep := mask31 p.streamDep }) padLen] := by
  apply checked_stream
  rw [h, hprio]
  cases prio with
  | none => rfl
  | some p =>
    have htake : (putPriority p ++ block).take 5 = putPriority p :=
      List.take_left' (length_putPriority p)
    have hdrop : (putPriority p ++ block).drop 5 = block :=
      List.drop_left' (length_putPriority p)
    simp [bind, Except.bind, pure, Except.pure, htake, hdrop, parsePriority_putPriority]

/-! SETTINGS. -/

theorem setPair_of_not_mem {p : SettingPair} (h : p.id ∉ pairs.map SettingPair.id) :
    setPair pairs p = pairs ++ [p] := by
  induction pairs with
  | nil => rfl
  | cons q qs ih =>
    simp only [List.map_cons, List.mem_cons, not_or] at h
    rw [setPair, if_neg (Ne.symm h.1), ih h.2]
    rfl

/-- One setting is read back. -/
theorem settingsFrom_put (pairs : List SettingPair) (p : SettingPair) (rest : Bytes) :
    settingsFrom pairs (p.put ++ rest) =
      settingsFrom (if isDefinedSetting p.id then setPair pairs p else pairs) rest := by
  have hid : UInt16.ofNat (decode (encode 2 p.id.toNat)) = p.id := by
    have := p.id.toNat_lt
    rw [decode_encode_of_lt (by omega), UInt16.ofNat_toNat]
  have hvalue := readUint32_putUint32 p.value
  simp only [putUint32, encode, List.nil_append, List.cons_append] at hid hvalue
  simp only [SettingPair.put, putUint32, encode, List.nil_append, List.cons_append,
    settingsFrom, hid, hvalue]

theorem settingsFrom_flatMap {acc : List SettingPair}
    (hdef : ∀ p ∈ pairs, isDefinedSetting p.id = true)
    (hnodup : ((acc ++ pairs).map SettingPair.id).Nodup) :
    settingsFrom acc (pairs.flatMap SettingPair.put) = acc ++ pairs := by
  induction pairs generalizing acc with
  | nil => simp [settingsFrom]
  | cons p ps ih =>
    have hp : p.id ∉ acc.map SettingPair.id := by
      simp only [List.map_append, List.map_cons] at hnodup
      intro hmem
      exact (List.nodup_append.mp hnodup).2.2 p.id hmem p.id (by simp) rfl
    rw [List.flatMap_cons, settingsFrom_put, if_pos (hdef p (by simp)), setPair_of_not_mem hp,
      ih (fun q hq => hdef q (by simp [hq])) (by simpa using hnodup)]
    simp

/-! Every frame. -/

/-- What the write functions check of their arguments, the stream and the limit apart. -/
def Accepted : Call → Prop
  | windowUpdate _ increment => mask31 increment ≠ 0
  | altSvc _ entries => entries.length ≤ 1 ∧ ∀ e ∈ entries, e.origin.length < 2 ^ 16
  | _ => True

theorem accepted_of_run {written : Bytes} (h : c.run M out = .ok () written) :
    c.Accepted := by
  cases c with
  | windowUpdate streamID increment =>
    intro hzero
    simp [run, write, writeWindowUpdate, hzero] at h
  | altSvc streamID entries =>
    match entries with
    | [] => simp [Accepted]
    | [e] =>
      by_cases horigin : 0xffff < e.origin.length
      · simp [run, write, writeAltSvc, horigin] at h
      · simp only [Accepted, List.length_singleton, List.mem_singleton, forall_eq]
        omega
    | _ :: _ :: _ => simp [run, write, writeAltSvc] at h
  | _ => trivial

theorem dispatchAltSvc_entry {e : AltSvcEntry} (hlen : e.origin.length < 2 ^ 16)
    (hscope : fh.streamID = 0 ↔ e.origin ≠ []) :
    dispatchAltSvc fh (encode 2 e.origin.length ++ e.origin ++ e.altValue) =
      .ok [.onAltSvc fh [e]] := by
  have h2 : (encode 2 e.origin.length).length = 2 := length_encode 2 _
  have hdecode : decode (encode 2 e.origin.length) = e.origin.length :=
    decode_encode_of_lt (by omega)
  generalize encode 2 e.origin.length = lengthField at h2 hdecode
  have htake : (lengthField ++ (e.origin ++ e.altValue)).take 2 = lengthField := List.take_left' h2
  have hdrop : (lengthField ++ (e.origin ++ e.altValue)).drop 2 = e.origin ++ e.altValue :=
    List.drop_left' h2
  have hvalue : (lengthField ++ (e.origin ++ e.altValue)).drop (2 + e.origin.length) = e.altValue := by
    rw [← List.drop_drop, hdrop, List.drop_left]
  have hne : lengthField ++ (e.origin ++ e.altValue) ≠ [] := by
    intro hnil
    simp [List.append_eq_nil_iff.mp hnil |>.1] at h2
  have hlong : ¬ (lengthField ++ (e.origin ++ e.altValue)).length < 2 := by
    rw [List.length_append]
    omega
  have hfits : ¬ (lengthField ++ (e.origin ++ e.altValue)).length < 2 + e.origin.length := by
    rw [List.length_append, List.length_append]
    omega
  have hkept : ¬ (fh.streamID = 0 ↔ e.origin = []) := by
    intro hiff
    by_cases horigin : e.origin = []
    · exact hscope.mp (hiff.mpr horigin) horigin
    · exact horigin (hiff.mp (hscope.mpr horigin))
  rw [List.append_assoc]
  unfold dispatchAltSvc
  rw [if_neg hne, if_neg hlong]
  simp only [htake, hdecode, hdrop, List.take_left, hvalue]
  rw [if_neg hfits]
  simp only [hkept, if_false]
  rfl

theorem dispatchSettings_pairs (hid : fh.streamID = 0) (hack : fh.flags.has flagAck = false)
    (hlen : fh.length = (pairs.flatMap SettingPair.put).length)
    (hdef : ∀ p ∈ pairs, isDefinedSetting p.id = true) (hnodup : (pairs.map SettingPair.id).Nodup) :
    dispatchSettings fh (pairs.flatMap SettingPair.put) = .ok [.onSettings fh pairs] := by
  have hsix : fh.length % 6 = 0 := by
    have hput : ∀ p : SettingPair, p.put.length = 6 := fun p => by simp [SettingPair.put]
    simp [hlen, List.length_flatMap, hput]
  have hpairs : settingsFrom [] (pairs.flatMap SettingPair.put) = pairs :=
    settingsFrom_flatMap hdef (by simpa using hnodup)
  simp [dispatchSettings, hid, hack, hsix, hpairs]
  rfl

theorem dispatchGoAway_put {lastStreamID : UInt32} {code : ErrCode} {debug : Bytes}
    (hid : fh.streamID = 0) (hlen : 8 ≤ fh.length) :
    dispatchGoAway fh (putUint31 lastStreamID ++ putUint32 code ++ debug) =
      .ok [.onGoAway fh (mask31 lastStreamID) code debug] := by
  have hdebug : (putUint31 lastStreamID ++ (putUint32 code ++ debug)).drop 8 = debug := by
    rw [← List.drop_drop (i := 4), drop_putUint31, List.drop_left' (length_putUint32 _)]
  simp [dispatchGoAway, hid, hdebug, Nat.not_lt.mpr hlen]
  rfl

theorem take_of_length {b : Bytes} (h : b.length = n) : b.take n = b :=
  h ▸ List.take_length

theorem dispatchPing_spec (hid : fh.streamID = 0) (hlen : fh.length = 8) :
    dispatchPing fh payload = .ok [.onPing fh payload] := by
  unfold dispatchPing
  rw [hid, hlen]
  rfl

theorem dispatchWindowUpdate_put {increment : UInt32} (hlen : fh.length = 4)
    (hne : mask31 increment ≠ 0) :
    dispatchWindowUpdate fh (putUint31 (mask31 increment)) =
      .ok [.onWindowUpdate fh (mask31 increment)] := by
  unfold dispatchWindowUpdate
  rw [take_of_length (length_putUint31 _), readUint31_putUint31, mask31_mask31, hlen]
  simp only [hne, if_false]
  rfl

/-- Frames that need a stream. -/
theorem dispatch_onStream (hc : c.onStream) (hlen : c.payload.length < 2 ^ 32) :
    dispatch c.wire c.payload =
      if mask31 c.streamID = 0 then .error .invalidStreamID else .ok [c.handlerCall] := by
  have hlength : c.wire.length = c.payload.length := Nat.mod_eq_of_lt hlen
  cases c with
  | data streamID endStream _ | dataV streamID endStream _ =>
    exact dispatchData_spec (if_neg (ne_true_of_eq_false (has_dataFlags endStream).1))
  | dataPadded streamID endStream _ padLen | dataVPadded streamID endStream _ padLen =>
    exact dispatchData_spec ((if_pos (has_dataFlags endStream).2).trans (stripPadding_zeros ..))
  | headers p =>
    have hflags := has_headersFlags p.endStream p.endHeaders (p.padLength ≠ 0) p.priority.isSome
    exact dispatchHeaders_spec (unpadded_padByte p.padLength _ hflags.1) hflags.2
  | continuation streamID endHeaders blockFragment => exact checked_stream rfl
  | priority streamID p =>
    apply checked_stream
    rw [payload, take_of_length (length_putPriority p), parsePriority_putPriority]
    rfl
  | rstStream streamID code =>
    apply checked_stream
    rw [payload, take_of_length (length_putUint32 code), readUint32_putUint32]
    rfl
  | pushPromise streamID promisedID blockFragment endHeaders padLen =>
    have hflag := has_pushPromiseFlags endHeaders (padLen ≠ 0)
    apply checked_stream
    rw [payload, unpadded_padByte padLen _ hflag]
    simp [bind, Except.bind, pure, Except.pure, handlerCall]
  | _ => cases hc

theorem mask31_zero : mask31 0 = 0 := by decide

theorem has_zero : Flags.has 0 flagAck = false := by decide

/-- Frames that are read on stream 0 too. -/
theorem dispatch_offStream (hoff : c.onStream = false) (hacc : c.Accepted) (hc : c.InScope)
    (hlen : c.payload.length < 2 ^ 32) :
    dispatch c.wire c.payload = .ok [c.handlerCall] := by
  have hlength : c.wire.length = c.payload.length := Nat.mod_eq_of_lt hlen
  cases c with
  | settings pairs => exact dispatchSettings_pairs mask31_zero has_zero hlength hc.1 hc.2
  | settingsAck => rfl
  | ping ack body => exact dispatchPing_spec mask31_zero (hlength.trans body.2)
  | goAway lastStreamID code debug =>
    apply dispatchGoAway_put mask31_zero
    simp [hlength, payload]
    omega
  | windowUpdate streamID increment =>
    exact dispatchWindowUpdate_put (hlength.trans (length_putUint31 _)) hacc
  | altSvc streamID entries =>
    match entries with
    | [] => rfl
    | [e] =>
      apply dispatchAltSvc_entry (hacc.2 e (by simp))
      simpa [wire, Call.streamID] using hc e (by simp)
    | _ :: _ :: _ => simp [Accepted] at hacc
  | _ => cases hoff

/-- The reader calls the matching handler with the arguments written, unless a frame that
needs a stream arrives on stream 0. -/
theorem dispatch_wire (hacc : c.Accepted) (hc : c.InScope) (hlen : c.payload.length < 2 ^ 32) :
    dispatch c.wire c.payload =
      if c.onStream ∧ mask31 c.streamID = 0 then .error .invalidStreamID
      else .ok [c.handlerCall] := by
  cases hon : c.onStream with
  | true => simpa using dispatch_onStream hon hlen
  | false => simpa using dispatch_offStream hon hacc hc hlen

/-! ## Round trips -/

/-- A reader with the same limit, in any state that allows the frame, takes exactly these
bytes and calls the matching handler once. -/
def ReadsBack (M : ℕ) (c : Call) (written : Bytes) : Prop :=
  ∀ (r : Reader) (tail : Bytes), r.maxFrameSize = M → r.checkFieldBlockContinuity c.wire = none →
    r.readFrame (written ++ tail) = ⟨r.trackFieldBlock c.wire, tail, [c.handlerCall], none⟩

/-- A read without an error takes the header and as many bytes as it announces. -/
theorem length_of_readFrame {r' : Reader} {rest : Bytes}
    (hread : r.readFrame (h.put ++ rest) = ⟨r', tail, calls, none⟩) :
    rest.length = (readFrameHeader h.put).length + tail.length ∧
      (readFrameHeader h.put).length ≤ r.maxFrameSize := by
  rcases put_append h rest with ⟨htake, hdrop, hlong⟩
  unfold Reader.readFrame at hread
  rw [if_neg hlong] at hread
  simp only [htake, hdrop] at hread
  generalize readFrameHeader h.put = fh at hread ⊢
  by_cases hmax : r.maxFrameSize < fh.length
  · simp [hmax] at hread
  by_cases hshort : rest.length < fh.length
  · simp [hmax, hshort] at hread
  have htail : tail = rest.drop fh.length := by
    simp only [hmax, hshort, if_false] at hread
    split at hread
    · simp at hread
    · split at hread
      · simp at hread
      · exact (congrArg Reader.Result.rest hread).symm
  rw [htail, List.length_drop]
  omega

/-- A reader that allows the frame. -/
def allowing (M : ℕ) (c : Call) : Reader :=
  if c.type = FrameType.continuation then ⟨M, true, mask31 c.streamID⟩ else ⟨M, false, 0⟩

theorem maxFrameSize_allowing (c : Call) : (c.allowing M).maxFrameSize = M := by
  unfold allowing
  split_ifs <;> rfl

theorem check_allowing (c : Call) : (c.allowing M).checkFieldBlockContinuity c.wire = none := by
  unfold allowing Reader.checkFieldBlockContinuity
  by_cases hcont : c.type = FrameType.continuation <;> simp [hcont, wire, header]

theorem readFrame_bytes (hacc : c.Accepted) (hc : c.InScope)
    (hlen : c.payload.length ≤ r.maxFrameSize) (hcut : c.payload.length < 2 ^ 24)
    (hcheck : r.checkFieldBlockContinuity c.wire = none) :
    r.readFrame (c.bytes ++ tail) =
      if c.onStream ∧ mask31 c.streamID = 0 then
        ⟨r.trackFieldBlock c.wire, tail, [], some .invalidStreamID⟩
      else ⟨r.trackFieldBlock c.wire, tail, [c.handlerCall], none⟩ := by
  have hwire : c.wire.length = c.payload.length := Nat.mod_eq_of_lt (by omega)
  have hheader : readFrameHeader c.header.put = c.wire := by
    -- the length fits in its 24 bits
    rw [readFrameHeader_put]
    simp only [wire, header, uint32, FrameHeader.mk.injEq, and_self, and_true]
    omega
  rw [bytes, readFrame_put hheader hwire (hwire ▸ hlen) hcheck, dispatch_wire hacc hc (by omega)]
  split_ifs with hrefused <;> rfl

/-- A call that is refused writes nothing. What another one writes is read back exactly if
the payload is within the limit and a frame that needs a stream has one besides the
reserved bit. -/
theorem roundTrips_iff (hM : M ≤ 2 ^ 24 - 1) (c : Call) (hc : c.InScope) (out : Bytes) :
    (∃ e, c.run M out = .error e out) ∨
      ∃ written, c.run M out = .ok () (out ++ written) ∧
        (c.ReadsBack M written ↔
          c.payload.length ≤ M ∧ (c.onStream → mask31 c.streamID ≠ 0)) := by
  have hwrites : c.Writes out (c.run M out) := run_spec c
  rcases hwrites with herror | hok
  · exact .inl herror
  have hacc := accepted_of_run hok
  refine .inr ⟨c.bytes, hok, ?_, ?_⟩
  · intro hback
    have hread := hback (c.allowing M) [] (maxFrameSize_allowing c) (check_allowing c)
    have hlen : c.payload.length ≤ M := by
      -- all of the payload was taken, and no more than the limit
      have hlength := length_of_readFrame (List.append_assoc .. ▸ hread)
      simp only [List.append_nil, List.length_nil, maxFrameSize_allowing] at hlength
      omega
    refine ⟨hlen, fun hon hzero => ?_⟩
    rw [readFrame_bytes hacc hc (by rwa [maxFrameSize_allowing])
      (by omega) (check_allowing c), if_pos ⟨hon, hzero⟩] at hread
    simp at hread
  · rintro ⟨hlen, hid⟩ r tail hr hcheck
    rw [readFrame_bytes hacc hc (by omega) (by omega) hcheck, if_neg]
    rintro ⟨hon, hzero⟩
    exact hid hon hzero

/-- A header block with a priority and padding. -/
def paddedHeaders : Call :=
  headers ⟨3, [0x88, 0x41, 0x8c], true, false, some ⟨0x80000001, true, 15⟩, 2⟩

theorem roundTrips_iff_paddedHeaders :
    paddedHeaders.run 16384 [] = .ok () paddedHeaders.bytes ∧
      paddedHeaders.ReadsBack 16384 paddedHeaders.bytes := by
  have hrun : paddedHeaders.run 16384 [] = .ok () paddedHeaders.bytes := by rfl
  refine ⟨hrun, ?_⟩
  rcases roundTrips_iff (M := 16384) (by decide) paddedHeaders trivial [] with
    ⟨e, herror⟩ | ⟨written, hok, hiff⟩
  · cases herror
  · rw [hrun] at hok
    injection hok with _ hwritten
    rw [hwritten]
    exact hiff.mpr (by decide)

/-- `WriteData` accepts a stream whose only set bit is the reserved one, and the framer's own
reader refuses the frame. -/
theorem reserved_bit_alone_is_refused :
    let c := data 0x80000000 true [1]
    let r : Reader := ⟨16384, false, 0⟩
    c.run 16384 [] = .ok () c.bytes ∧ r.checkFieldBlockContinuity c.wire = none ∧
      r.readFrame c.bytes = ⟨r, [], [], some .invalidStreamID⟩ := by
  refine ⟨by rfl, ?_, ?_⟩ <;> decide +kernel

end Call

end Frame
