import PoseidonHttp.Quic.FrameLayout

/-!
# Packet headers

`quic/packet.go` and `quic/packet_write.go`. The header of a packet is parsed before its
protection is removed: the low bits of the first byte and the packet number are still masked,
and the length field says where the packet ends in its datagram. A short header has no length,
so that its packet is the last one.

`parseHeader_long`, `parseHeader_short`: a header that was written is parsed back, whatever the
masked bits have become and whatever stands after the packet.
-/

namespace Quic

open Header (Bytes)
open Cursor (Reader Parser Stop Reads refuse next size run_bind elem position front_append bind_eq)
open FrameParser
open BigEndian (encode decode)

inductive PacketType where
  | initial
  | zeroRTT
  | handshake
  | retry
  | short
  | versionNegotiation
  deriving DecidableEq, Repr

/-- `Header`. `pnOffset` is where the packet number stands, and 0 for a packet without one. -/
structure PacketHeader where
  type : PacketType
  version : ℕ
  dcid : Bytes
  scid : Bytes
  token : Bytes
  length : ℕ
  pnOffset : ℕ
  packetLen : ℕ
  deriving DecidableEq, Repr

/-! ## Parsing -/

/-- A connection identifier, after a byte that gives its length. -/
def readCID : Reader UInt8 Error Bytes := do
  let first ← readByte .packetEncoding
  let l := first.toNat
  if l > 20 ∨ ((← size) : ℤ) - (← position) < l then
    refuse Error.packetEncoding
  else next l

/-- The length field, and where the packet number begins. -/
def finishLong (type : PacketType) (version : ℕ) (dcid scid token : Bytes) :
    Reader UInt8 Error PacketHeader := do
  let length ← FrameParser.readV Error.packetEncoding
  let p ← position
  if length > uint64 ((← size) - p) then refuse Error.packetEncoding
  else return ⟨type, version, dcid, scid, token, length, p, p + length⟩

/-- What follows the two connection identifiers of a long header. -/
def readTyped (b0 : UInt8) (version : ℕ) (dcid scid : Bytes) : Reader UInt8 Error PacketHeader :=
  if version = 0 then do
    -- the rest is a list of supported versions
    return ⟨.versionNegotiation, version, dcid, scid, [], 0, 0, ← size⟩
  else if b0 &&& 0x40 = 0 then refuse Error.packetEncoding
  else if (b0 >>> 4) &&& 0x03 = 0 then do
    let token ← readVarBytes Error.packetEncoding
    finishLong .initial version dcid scid token
  else if (b0 >>> 4) &&& 0x03 = 1 then finishLong .zeroRTT version dcid scid []
  else if (b0 >>> 4) &&& 0x03 = 2 then finishLong .handshake version dcid scid []
  else do
    -- the rest is the token and a tag of 16 bytes
    let left := ((← size) : ℤ) - (← position)
    if left < 16 then refuse Error.packetEncoding
    else
      let token ← next (left - 16).toNat
      return ⟨.retry, version, dcid, scid, token, 0, 0, ← size⟩

def parseLongHeader : Reader UInt8 Error PacketHeader := do
  if (← size) < 5 then refuse Error.packetEncoding
  else
    let b0 ← elem
    let version ← next 4
    let dcid ← readCID
    let scid ← readCID
    readTyped b0 (decode version) dcid scid

def parseShortHeader (dcidLen : ℕ) : Reader UInt8 Error PacketHeader := do
  let b0 ← elem
  if b0 &&& 0x40 = 0 then refuse Error.packetEncoding
  else if dcidLen > 20 ∨ (← size) < 1 + dcidLen then refuse Error.packetEncoding
  else
    let dcid ← next dcidLen
    return ⟨.short, 0, dcid, [], [], 0, 1 + dcidLen, ← size⟩

/-- `ParseHeader`, for the packet at the front of `pkt`. `dcidLen` is the length of a slice. -/
def parseHeader (pkt : Bytes) (dcidLen : ℕ) : Except (Stop Error) PacketHeader :=
  match pkt with
  | [] => .error (.refused .packetEncoding)
  | b0 :: _ =>
    if b0 &&& 0x80 = 0 then (parseShortHeader dcidLen pkt 0).map Prod.fst
    else (parseLongHeader pkt 0).map Prod.fst

/-! ## Writing -/

/-- `AppendLongHeader`: the first byte. -/
def longFirst (type : PacketType) (pnLen : ℕ) : UInt8 :=
  let first : UInt8 := 0xc0
  let first :=
    match type with
    | .zeroRTT => first ||| 0x10
    | .handshake => first ||| 0x20
    | _ => first
  first ||| (UInt8.ofNat (pnLen - 1) &&& 0x03)

/-- `AppendLongHeader`: the fields after the first byte; then comes the packet number. -/
def longFields (type : PacketType) (version : ℕ) (dcid scid token : Bytes) (length : ℕ) : Bytes :=
  encode 4 version ++ (UInt8.ofNat dcid.length :: dcid) ++
    (UInt8.ofNat scid.length :: scid) ++
    (if type = .initial then appendV token.length ++ token else []) ++ appendV length

/-- `AppendShortHeader`: the first byte; then comes the connection identifier. -/
def shortFirst (pnLen : ℕ) (keyPhase : Bool) : UInt8 :=
  let first : UInt8 := 0x40
  let first := if keyPhase then first ||| 0x04 else first
  first ||| (UInt8.ofNat (pnLen - 1) &&& 0x03)

/-! ## What is written is parsed -/

/-- A connection identifier at the front. -/
def cid : Parser UInt8 Bytes := do
  let first ← Layout.byte
  if first.toNat > 20 then failure else Cursor.front first.toNat

theorem readCID_reads : Reads readCID cid .packetEncoding := by
  refine (readByte_reads _).bind fun first => ?_
  by_cases hlong : first.toNat > 20
  · intro b p hp
    rw [if_pos hlong]
    show Cursor.Agrees b p _ ((if first.toNat > 20 ∨ (b.length : ℤ) - p < first.toNat
      then refuse Error.packetEncoding else next first.toNat : Reader UInt8 Error _) b p) _
    rw [if_pos (.inl hlong)]
    rfl
  · rw [if_neg hlong]
    refine Reads.next first.toNat
      ?_
    intro m p hp
    omega

theorem cid_append {id : Bytes} (h : id.length ≤ 20) (rest : Bytes) :
    cid (UInt8.ofNat id.length :: (id ++ rest)) = some (id, rest) := by
  have hbyte : (UInt8.ofNat id.length).toNat = id.length := by
    exact Nat.mod_eq_of_lt (by omega)
  have hfirst : Layout.byte (UInt8.ofNat id.length :: (id ++ rest)) =
      some (UInt8.ofNat id.length, id ++ rest) := rfl
  rw [cid, bind_eq hfirst, hbyte, if_neg (by omega)]
  exact front_append rfl rest

variable {b dcid rest scid token : Bytes} {type : PacketType} {b0 : UInt8} {length version : ℕ}

/-- The length field is read back, and the packet is as long as it says. -/
theorem finishLong_eq (hlength : length ≤ maxVarint) {p : ℕ} (hp : p ≤ b.length)
    (hb : b.drop p = appendV length ++ rest) (hrest : length ≤ rest.length) :
    finishLong type version dcid scid token b p =
      .ok (⟨type, version, dcid, scid, token, length, b.length - rest.length,
        b.length - rest.length + length⟩, b.length - rest.length) := by
  have hread : Layout.varint (b.drop p) = some (length, rest) := by
    rw [hb]
    exact readV_appendV hlength rest
  rcases (readV_reads Error.packetEncoding).run hp hread with ⟨p', -, hlen, hdrop, hr⟩
  have hpos := Cursor.position_of_drop hlen hdrop
  rw [hpos, finishLong, run_bind hr]
  show (if length > uint64 ((b.length : ℤ) - p') then refuse Error.packetEncoding
    else pure _ : Reader UInt8 Error PacketHeader) b p' = _
  have hword : uint64 ((b.length : ℤ) - p') = b.length - p' := by
    rw [uint64, if_pos (by omega)]
    omega
  have hleft : rest.length = b.length - p' := by rw [← hdrop, List.length_drop]
  rw [if_neg (by omega)]
  rfl

/-- The two bits of the first byte that tell the type. -/
def typeBits : PacketType → UInt8
  | .zeroRTT => 1
  | .handshake => 2
  | _ => 0

/-- A first byte of a long header of the type, whatever its low four bits are. -/
structure LongForm (type : PacketType) (b0 : UInt8) : Prop where
  form : b0 &&& 0x80 ≠ 0
  fixed : b0 &&& 0x40 ≠ 0
  bits : (b0 >>> 4) &&& 0x03 = typeBits type
  known : type = .initial ∨ type = .zeroRTT ∨ type = .handshake

theorem readTyped_eq (hb0 : LongForm type b0) (hversion : version ≠ 0)
    (htoken : token.length ≤ maxVarint) (hlength : length ≤ maxVarint) {p : ℕ} (hp : p ≤ b.length)
    (hb : b.drop p =
      (if type = .initial then appendV token.length ++ token else []) ++ appendV length ++ rest)
    (hrest : length ≤ rest.length) :
    readTyped b0 version dcid scid b p =
      .ok (⟨type, version, dcid, scid, if type = .initial then token else [], length,
        b.length - rest.length, b.length - rest.length + length⟩, b.length - rest.length) := by
  have hbits := hb0.bits
  rw [readTyped, if_neg hversion, if_neg hb0.fixed, hbits]
  rcases hb0.known with rfl | rfl | rfl
  · rw [if_pos rfl, List.append_assoc, List.append_assoc] at hb
    have hread : Layout.varBytes (b.drop p) = some (token, appendV length ++ rest) := by
      have hvarint : Layout.varint (appendV token.length ++ (token ++ (appendV length ++ rest))) =
          some (token.length, token ++ (appendV length ++ rest)) := readV_appendV htoken _
      rw [hb, Layout.varBytes, bind_eq hvarint]
      exact front_append rfl _
    rcases (readVarBytes_reads Error.packetEncoding).run hp hread with ⟨p', -, hlen, hdrop, hr⟩
    rw [if_pos (show typeBits .initial = 0 from rfl), run_bind hr]
    exact finishLong_eq hlength hlen hdrop hrest
  · exact finishLong_eq hlength hp hb hrest
  · exact finishLong_eq hlength hp hb hrest

/-- The fields that every long header has. -/
theorem parseLongHeader_eq (hword : version < 2 ^ 32) (hdcid : dcid.length ≤ 20)
    (hscid : scid.length ≤ 20) {tail : Bytes}
    (hb : b = b0 :: (encode 4 version ++ (UInt8.ofNat dcid.length :: (dcid ++
      (UInt8.ofNat scid.length :: (scid ++ tail)))))) :
    ∃ p, p ≤ b.length ∧ b.drop p = tail ∧
      parseLongHeader b 0 = readTyped b0 version dcid scid b p := by
  have hlen4 : (encode 4 version).length = 4 := BigEndian.length_encode 4 version
  have hsize : 5 ≤ b.length := by
    rw [hb, List.length_cons, List.length_append]
    omega
  have helem : (elem : Reader UInt8 Error UInt8) b 0 = .ok (b0, 1) := by
    rw [hb]
    rfl
  have hdrop1 : b.drop 1 = encode 4 version ++ (UInt8.ofNat dcid.length :: (dcid ++
      (UInt8.ofNat scid.length :: (scid ++ tail)))) := by
    rw [hb, List.drop_one, List.tail_cons]
  have hnext : (next 4 : Reader UInt8 Error Bytes) b 1 =
      .ok (encode 4 version, 5) := by
    rw [next, if_pos hsize, hdrop1, List.take_left' hlen4]
  have hdrop5 : b.drop 5 = UInt8.ofNat dcid.length :: (dcid ++
      (UInt8.ofNat scid.length :: (scid ++ tail))) := by
    rw [show 5 = 1 + 4 from rfl, ← List.drop_drop, hdrop1, List.drop_left' hlen4]
  have hdcidRead := cid_append hdcid (UInt8.ofNat scid.length :: (scid ++ tail))
  rw [← hdrop5] at hdcidRead
  rcases readCID_reads.run hsize hdcidRead with ⟨p, -, hp, hdrop, hr⟩
  have hscidRead := cid_append hscid tail
  rw [← hdrop] at hscidRead
  rcases readCID_reads.run hp hscidRead with ⟨p', -, hp', hdrop', hr'⟩
  have hdecode : decode (encode 4 version) = version :=
    BigEndian.decode_encode_of_lt (by omega)
  refine ⟨p', hp', hdrop', ?_⟩
  show (if b.length < 5 then refuse Error.packetEncoding else _ :
    Reader UInt8 Error PacketHeader) b 0 = _
  rw [if_neg (Nat.not_lt.mpr hsize), run_bind helem, run_bind hnext,
    run_bind hr, run_bind hr', hdecode]

/-- A long header is parsed back, whatever the low bits of its first byte are. -/
theorem parseHeader_long (hb0 : LongForm type b0) (hversion : version ≠ 0)
    (hword : version < 2 ^ 32) (hdcid : dcid.length ≤ 20) (hscid : scid.length ≤ 20)
    (htoken : token.length ≤ maxVarint) (hlength : length ≤ maxVarint)
    (hrest : length ≤ rest.length) (dcidLen : ℕ) :
    parseHeader (b0 :: (longFields type version dcid scid token length ++ rest)) dcidLen =
      .ok ⟨type, version, dcid, scid, if type = .initial then token else [], length,
        1 + (longFields type version dcid scid token length).length,
        1 + (longFields type version dcid scid token length).length + length⟩ := by
  rw [parseHeader, if_neg hb0.form]
  generalize hb : b0 :: (longFields type version dcid scid token length ++ rest) = b
  have hend : b.length - rest.length =
      1 + (longFields type version dcid scid token length).length := by
    rw [← hb, List.length_cons, List.length_append]
    omega
  simp only [longFields, List.append_assoc, List.cons_append] at hb
  rcases parseLongHeader_eq hword hdcid hscid hb.symm with ⟨p, hp, hdrop, heq⟩
  rw [← List.append_assoc] at hdrop
  rw [heq, readTyped_eq hb0 hversion htoken hlength hp hdrop hrest, hend]
  rfl

/-- A short header is parsed back, and its packet takes the rest of the datagram. -/
theorem parseHeader_short (hform : b0 &&& 0x80 = 0) (hfixed : b0 &&& 0x40 ≠ 0)
    (hdcid : dcid.length ≤ 20) (rest : Bytes) :
    parseHeader (b0 :: (dcid ++ rest)) dcid.length =
      .ok ⟨.short, 0, dcid, [], [], 0, 1 + dcid.length, 1 + dcid.length + rest.length⟩ := by
  rw [parseHeader, if_pos hform]
  generalize hb : b0 :: (dcid ++ rest) = b
  have hsize : b.length = 1 + dcid.length + rest.length := by
    rw [← hb, List.length_cons, List.length_append]
    omega
  have helem : (elem : Reader UInt8 Error UInt8) b 0 = .ok (b0, 1) := by
    rw [← hb]
    rfl
  have hnext : (next dcid.length : Reader UInt8 Error Bytes) b 1 =
      .ok (dcid, 1 + dcid.length) := by
    rw [next, if_pos (by omega), ← hb, List.drop_one, List.tail_cons, List.take_left]
  have hcheck : ¬ (dcid.length > 20 ∨ b.length < 1 + dcid.length) := by omega
  rw [parseShortHeader, run_bind helem, if_neg hfixed]
  show Except.map Prod.fst ((if dcid.length > 20 ∨ b.length < 1 + dcid.length
    then refuse Error.packetEncoding else _ : Reader UInt8 Error PacketHeader) b 1) = _
  rw [if_neg hcheck, run_bind hnext, ← hsize]
  rfl

end Quic
