import PoseidonHttp.Quic.PacketProtection

/-!
# Coalesced packets

A datagram holds packets one after another: any number with long headers, and one with a short
header at the end. The receiver splits it by the headers, while the packets are still
protected, and opens each part.

`datagram_round_trip`: packets that were sealed and put into a datagram are found at their
boundaries, and opening them gives back the packet number, the header and the payload.
-/

namespace Quic

open Header (Bytes)
open PacketKeys

/-! ## The receiver -/

/-- The loop over the packets of a datagram, for at most `rounds` packets: the header of what is
left is parsed, and `rest[:hdr.PacketLen]` is the packet. -/
def splitLoop (dcidLen : ℕ) : ℕ → Bytes → Except Halt (List (PacketHeader × Bytes))
  | 0, _ => .error .endless
  | rounds + 1, rest =>
    if rest.length > 0 then
      match parseHeader rest dcidLen with
      | .error stop => .error (.stop stop)
      | .ok hdr =>
        if hdr.packetLen ≤ rest.length then do
          let later ← splitLoop dcidLen rounds (rest.drop hdr.packetLen)
          return (hdr, rest.take hdr.packetLen) :: later
        else .error (.stop .outOfBounds)
    else return []

/-- The packets of a datagram, with their headers. -/
def splitDatagram (dcidLen : ℕ) (datagram : Bytes) : Except Halt (List (PacketHeader × Bytes)) :=
  splitLoop dcidLen (datagram.length + 1) datagram

/-! ## The sender -/

structure LongPacket where
  type : PacketType
  version : ℕ
  dcid : Bytes
  scid : Bytes
  token : Bytes
  pnLen : ℕ
  pn : ℕ
  payload : Bytes

structure ShortPacket where
  dcid : Bytes
  spin : Bool
  keyPhase : Bool
  pnLen : ℕ
  pn : ℕ
  payload : Bytes

/-- A packet before it is sealed. -/
inductive Packet where
  | long (p : LongPacket)
  | short (p : ShortPacket)

namespace Packet

def type : Packet → PacketType
  | .long p => p.type
  | .short _ => .short

def pnLen : Packet → ℕ
  | .long p => p.pnLen
  | .short p => p.pnLen

def pn : Packet → ℕ
  | .long p => p.pn
  | .short p => p.pn

def payload : Packet → Bytes
  | .long p => p.payload
  | .short p => p.payload

/-- The first byte. The spin bit of a short header is set by the connection. -/
def first : Packet → UInt8
  | .long p => longFirst p.type p.pnLen
  | .short p => shortFirst p.pnLen p.keyPhase ||| if p.spin then 0x20 else 0

/-- The length field counts the packet number, the payload and the tag. -/
def length (p : Packet) : ℕ := p.pnLen + p.payload.length + 16

/-- What stands between the first byte and the packet number. -/
def fields : Packet → Bytes
  | .long p =>
    longFields p.type p.version p.dcid p.scid p.token (p.pnLen + p.payload.length + 16)
  | .short p => p.dcid

/-- The header as it is built for a packet: the bytes of `AppendLongHeader` or
`AppendShortHeader`, and the low bytes of the packet number. -/
def hdr (p : Packet) : Bytes := p.first :: p.fields ++ BigEndian.encode p.pnLen p.pn

/-- The packet is built and sealed. -/
def protect (p : Packet) (k : PacketKeys) : Except Error Bytes :=
  k.sealPacket p.hdr (1 + p.fields.length) p.pnLen p.pn p.payload

/-- What its header is parsed as. -/
def header (p : Packet) : PacketHeader :=
  match p with
  | .long q =>
    ⟨q.type, q.version, q.dcid, q.scid, if q.type = .initial then q.token else [], p.length,
      1 + p.fields.length, 1 + p.fields.length + p.length⟩
  | .short q =>
    ⟨.short, 0, q.dcid, [], [], 0, 1 + p.fields.length, 1 + p.fields.length + p.length⟩

/-- The packet can be written: its fields fit, and there is enough of it to take the sample
from. -/
structure Sendable (p : Packet) : Prop where
  pos : 1 ≤ p.pnLen
  le : p.pnLen ≤ 4
  sample : 4 ≤ p.pnLen + p.payload.length
  length : p.length ≤ maxVarint
  pn : p.pn < 2 ^ 62

end Packet

namespace LongPacket

/-- The fields of a long header fit. -/
structure Fits (p : LongPacket) : Prop where
  type : p.type = .initial ∨ p.type = .zeroRTT ∨ p.type = .handshake
  version : p.version ≠ 0
  word : p.version < 2 ^ 32
  dcid : p.dcid.length ≤ 20
  scid : p.scid.length ≤ 20
  token : p.token.length ≤ maxVarint

end LongPacket

/-- The packets of a datagram: long headers, and a short one at the end, with an identifier of
the length the receiver expects. -/
inductive Coalesced (dcidLen : ℕ) : List Packet → Prop
  | nil : Coalesced dcidLen []
  | short {p : ShortPacket} (h : (Packet.short p).Sendable) (hdcid : p.dcid.length ≤ 20)
      (hlen : p.dcid.length = dcidLen) : Coalesced dcidLen [.short p]
  | long {p : LongPacket} {ps : List Packet} (h : (Packet.long p).Sendable) (hfits : p.Fits)
      (hps : Coalesced dcidLen ps) : Coalesced dcidLen (.long p :: ps)

/-- A packet number the receiver can recover: less than half a window from the one after the
largest it has. -/
def InWindow (pnLen pn largest : ℕ) : Prop :=
  pn < largest + 1 + 2 ^ (8 * pnLen - 1) ∧ largest + 1 < pn + 2 ^ (8 * pnLen - 1)

/-! ## First bytes -/

theorem pnLen_cases {n : ℕ} (hpos : 1 ≤ n) (hle : n ≤ 4) : n = 1 ∨ n = 2 ∨ n = 3 ∨ n = 4 := by
  omega

theorem longForm_longFirst {type : PacketType}
    (ht : type = .initial ∨ type = .zeroRTT ∨ type = .handshake) {pnLen : ℕ} (hpos : 1 ≤ pnLen)
    (hle : pnLen ≤ 4) :
    LongForm type (longFirst type pnLen) ∧
      longFirst type pnLen &&& 0x03 = UInt8.ofNat (pnLen - 1) := by
  rcases pnLen_cases hpos hle with rfl | rfl | rfl | rfl <;>
    rcases ht with rfl | rfl | rfl <;>
    exact ⟨⟨by decide, by decide, by decide, by decide⟩, by decide⟩

theorem shortFirst_and (spin keyPhase : Bool) {pnLen : ℕ} (hpos : 1 ≤ pnLen) (hle : pnLen ≤ 4) :
    (shortFirst pnLen keyPhase ||| if spin then 0x20 else 0) &&& 0x80 = 0 ∧
      (shortFirst pnLen keyPhase ||| if spin then 0x20 else 0) &&& 0x40 ≠ 0 ∧
      (shortFirst pnLen keyPhase ||| if spin then 0x20 else 0) &&& 0x03 =
        UInt8.ofNat (pnLen - 1) := by
  rcases pnLen_cases hpos hle with rfl | rfl | rfl | rfl <;> cases spin <;> cases keyPhase <;>
    decide

/-- The mask leaves the form of a long header and its type. -/
theorem LongForm.hide {type : PacketType} {b : UInt8} (h : LongForm type b)
    (mask : Vector UInt8 5) : LongForm type (PacketKeys.hide mask b) := by
  have hbits : maskedBits b = 0x0f := if_pos h.form
  have hshift : PacketKeys.hide mask b >>> 4 = b >>> 4 := by
    rw [PacketKeys.hide, hbits, UInt8.shiftRight_xor, UInt8.shiftRight_and,
      show (0x0f : UInt8) >>> 4 = 0 by decide, UInt8.and_zero, UInt8.xor_zero]
  refine ⟨?_, ?_, ?_, h.known⟩
  · rw [hide_and mask (by rw [hbits]; decide)]
    exact h.form
  · rw [hide_and mask (by rw [hbits]; decide)]
    exact h.fixed
  · rw [hshift]
    exact h.bits

/-! ## One packet -/

namespace Packet

variable {p : Packet} (k : PacketKeys)

/-- The packet as it is sent. -/
def wire (p : Packet) : Bytes := sealed k p.first p.fields p.pnLen p.pn p.payload

theorem protect_eq (hp : p.Sendable) : p.protect k = .ok (p.wire k) := by
  exact sealPacket_eq k hp.le hp.sample

theorem length_wire (hp : p.Sendable) : (p.wire k).length = 1 + p.fields.length + p.length :=
  length_sealed k hp.le

/-- A packet as it is sent: a first byte under some mask, the fields, and as many bytes as the
length says. -/
theorem wire_eq (hp : p.Sendable) :
    ∃ mask body, p.wire k = hide mask p.first :: (p.fields ++ body) ∧ body.length = p.length := by
  have hlen := length_wire k hp
  refine ⟨_, _, rfl, ?_⟩
  simp only [wire, sealed, List.length_cons, List.length_append] at hlen ⊢
  omega

end Packet

/-- The header of a long packet is parsed, whatever stands after the packet. -/
theorem parseHeader_wire_long {p : LongPacket} (hp : (Packet.long p).Sendable) (hfits : p.Fits)
    (k : PacketKeys) (rest : Bytes) (dcidLen : ℕ) :
    parseHeader ((Packet.long p).wire k ++ rest) dcidLen = .ok (Packet.long p).header := by
  rcases (Packet.long p).wire_eq k hp with ⟨mask, body, hwire, hbody⟩
  have hform := (longForm_longFirst hfits.type hp.pos hp.le).1.hide mask
  rw [hwire, List.cons_append, List.append_assoc]
  exact parseHeader_long hform hfits.version hfits.word hfits.dcid hfits.scid hfits.token
    hp.length (by rw [List.length_append]; omega) dcidLen

theorem parseHeader_wire_short {p : ShortPacket} (hp : (Packet.short p).Sendable)
    (hdcid : p.dcid.length ≤ 20) (k : PacketKeys) :
    parseHeader ((Packet.short p).wire k) p.dcid.length = .ok (Packet.short p).header := by
  rcases (Packet.short p).wire_eq k hp with ⟨mask, body, hwire, hbody⟩
  rcases shortFirst_and p.spin p.keyPhase hp.pos hp.le with ⟨hform, hfixed, -⟩
  have hbits : maskedBits (Packet.short p).first = 0x1f := if_neg (not_not.mpr hform)
  have hform' : hide mask (Packet.short p).first &&& 0x80 = 0 := by
    rw [hide_and mask (by rw [hbits]; decide)]
    exact hform
  have hfixed' : hide mask (Packet.short p).first &&& 0x40 ≠ 0 := by
    rw [hide_and mask (by rw [hbits]; decide)]
    exact hfixed
  rw [hwire, Packet.header, ← hbody]
  exact parseHeader_short hform' hfixed' hdcid body

/-! ## The datagram -/

variable {ps : List Packet} {dcidLen : ℕ}

/-- What the members of a datagram have in common. -/
theorem Coalesced.mem (h : Coalesced dcidLen ps) {p : Packet}
    (hp : p ∈ ps) : p.Sendable ∧ p.first &&& 0x03 = UInt8.ofNat (p.pnLen - 1) := by
  induction h with
  | nil => cases hp
  | short hsend _ _ =>
    cases List.mem_singleton.mp hp
    exact ⟨hsend, (shortFirst_and _ _ hsend.pos hsend.le).2.2⟩
  | long hsend hfits _ ih =>
    rcases List.mem_cons.mp hp with rfl | hp
    · exact ⟨hsend, (longForm_longFirst hfits.type hsend.pos hsend.le).2⟩
    · exact ih hp

/-- One round of the loop takes one packet. -/
theorem splitLoop_wire {dcidLen rounds : ℕ} {p : Packet} (hp : p.Sendable) {k : PacketKeys}
    {rest : Bytes} (hparse : parseHeader (p.wire k ++ rest) dcidLen = .ok p.header) :
    splitLoop dcidLen (rounds + 1) (p.wire k ++ rest) = (do
      let later ← splitLoop dcidLen rounds rest
      return (p.header, p.wire k) :: later) := by
  have hlen : p.header.packetLen = (p.wire k).length := by
    rw [Packet.length_wire k hp]
    cases p <;> rfl
  have hpos : (p.wire k ++ rest).length > 0 := by
    rw [List.length_append, Packet.length_wire k hp]
    omega
  have hfits : (p.wire k).length ≤ (p.wire k ++ rest).length := by
    rw [List.length_append]
    omega
  rw [splitLoop, if_pos hpos, hparse]
  dsimp only
  rw [hlen, if_pos hfits, List.take_left, List.drop_left]

/-- The boundaries the loop finds are those of the packets. -/
theorem splitLoop_wires (keys : PacketType → PacketKeys)
    (h : Coalesced dcidLen ps) {rounds : ℕ}
    (hrounds : (ps.map fun p => p.wire (keys p.type)).flatten.length < rounds) :
    splitLoop dcidLen rounds (ps.map fun p => p.wire (keys p.type)).flatten =
      .ok (ps.map fun p => (p.header, p.wire (keys p.type))) := by
  induction h generalizing rounds with
  | nil =>
    rcases rounds with _ | rounds
    · omega
    · rfl
  | @short p hsend hdcid hlen =>
    rcases rounds with _ | _ | rounds
    · omega
    · simp only [List.map_cons, List.map_nil, List.flatten_cons, List.flatten_nil,
        List.append_nil, Packet.length_wire _ hsend] at hrounds
      omega
    · have hparse := parseHeader_wire_short hsend hdcid (keys (Packet.short p).type)
      rw [hlen, ← List.append_nil (Packet.wire _ _)] at hparse
      rw [List.map_cons, List.map_nil, List.flatten_cons, List.flatten_nil,
        splitLoop_wire hsend hparse]
      rfl
  | @long p ps hsend hfits hps ih =>
    rcases rounds with _ | rounds
    · omega
    · have hparse := parseHeader_wire_long hsend hfits (keys (Packet.long p).type)
        (ps.map fun p => p.wire (keys p.type)).flatten dcidLen
      rw [List.map_cons, List.flatten_cons, List.length_append, Packet.length_wire _ hsend] at hrounds
      rw [List.map_cons, List.flatten_cons, splitLoop_wire hsend hparse, ih (by omega)]
      rfl

theorem mapM_protect (keys : PacketType → PacketKeys)
    (h : ∀ p ∈ ps, p.Sendable) :
    ps.mapM (fun p => p.protect (keys p.type)) = .ok (ps.map fun p => p.wire (keys p.type)) := by
  induction ps with
  | nil => rfl
  | cons p ps ih =>
    rw [List.mapM_cons, Packet.protect_eq _ (h p List.mem_cons_self),
      ih fun q hq => h q (List.mem_cons_of_mem p hq)]
    rfl

/-- Packets that are sealed and coalesced are found again: the loop over the headers cuts the
datagram at their boundaries, and opening each part gives back its packet number, the header,
with its first byte, and the payload. Under one key no two packet numbers have the same
nonce. -/
theorem datagram_round_trip (keys : PacketType → PacketKeys) {dcidLen : ℕ} {ps : List Packet}
    (h : Coalesced dcidLen ps) :
    (∃ pkts, ps.mapM (fun p => p.protect (keys p.type)) = .ok pkts ∧
      splitDatagram dcidLen pkts.flatten = .ok ((ps.map Packet.header).zip pkts) ∧
      ∀ p pkt, (p, pkt) ∈ ps.zip pkts → ∀ largest, InWindow p.pnLen p.pn largest →
        (keys p.type).openPacket pkt p.header.pnOffset largest =
          .ok ⟨p.pn, p.pnLen, p.payload, p.hdr⟩) ∧
    ∀ (k : PacketKeys) (pn pn' : ℕ), pn < 2 ^ 62 → pn' < 2 ^ 62 → pn ≠ pn' →
      putNonce k.iv pn ≠ putNonce k.iv pn' := by
  refine ⟨⟨_, mapM_protect keys fun p hp => (h.mem hp).1, ?_, ?_⟩, ?_⟩
  · rw [splitDatagram, splitLoop_wires keys h (Nat.lt_succ_self _), List.zip_map']
  · intro p pkt hmem largest hwindow
    have hzip := List.zip_map' (f := id) (g := fun p : Packet => p.wire (keys p.type)) (l := ps)
    simp only [List.map_id, id_eq] at hzip
    rw [hzip, List.mem_map] at hmem
    rcases hmem with ⟨q, hq, heq⟩
    cases heq
    have hoffset : p.header.pnOffset = 1 + p.fields.length := by cases p <;> rfl
    rw [hoffset]
    have ⟨hp, hbits⟩ := h.mem hq
    exact openPacket_sealed _ hp.pos hp.le hp.sample hbits hp.pn hwindow.1 hwindow.2
  · intro k pn pn' hpn hpn' hne heq
    exact hne (putNonce_injective k.iv hpn hpn' heq)

/-- A cipher that only appends its tag, and a mask of the sample's first bytes. -/
def plainKeys : PacketKeys where
  aead := {
    encrypt := fun _ plaintext _ => plaintext ++ List.replicate 16 0
    decrypt := fun _ ciphertext _ => some (ciphertext.take (ciphertext.length - 16))
    decrypt_encrypt := by simp
    length_encrypt := by simp }
  headerMask := fun sample => #v[sample.getD 0 0, sample.getD 1 0, sample.getD 2 0,
    sample.getD 3 0, sample.getD 4 0]
  iv := Vector.replicate 12 0

/-- An Initial with a token, a Handshake, and a short packet with the last number there is. -/
def threePackets : List Packet :=
  [.long ⟨.initial, 1, [1, 2], [3], [9, 9], 1, 5, [0xff, 0xaa, 1, 2, 3, 4]⟩,
   .long ⟨.handshake, 1, [1, 2], [3], [], 4, 77, [0xff]⟩,
   .short ⟨[1, 2], true, true, 2, 2 ^ 62 - 1, [7, 8, 9]⟩]

theorem datagram_round_trip_three :
    ∃ pkts, threePackets.mapM (fun p => p.protect plainKeys) = .ok pkts ∧
      splitDatagram 2 pkts.flatten = .ok ((threePackets.map Packet.header).zip pkts) ∧
      ∀ p pkt, (p, pkt) ∈ threePackets.zip pkts → ∀ largest, InWindow p.pnLen p.pn largest →
        plainKeys.openPacket pkt p.header.pnOffset largest =
          .ok ⟨p.pn, p.pnLen, p.payload, p.hdr⟩ := by
  have h : Coalesced 2 threePackets :=
    .long ⟨by decide, by decide, by decide, by decide, by decide⟩
      ⟨.inl rfl, by decide, by decide, by decide, by decide, by decide⟩
      (.long ⟨by decide, by decide, by decide, by decide, by decide⟩
        ⟨.inr (.inr rfl), by decide, by decide, by decide, by decide, by decide⟩
        (.short ⟨by decide, by decide, by decide, by decide, by decide⟩ (by decide) rfl))
  exact (datagram_round_trip (fun _ => plainKeys) h).1

end Quic
