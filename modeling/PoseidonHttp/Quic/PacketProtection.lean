import PoseidonHttp.Lib.XorMask
import PoseidonHttp.Quic.PacketHeader

/-!
# Packet protection

`quic/crypto_protect.go`. A packet is its header and the encrypted frames. Then the low bits of
the first byte and the packet number are masked; the mask is a function of sixteen bytes of
ciphertext, taken four bytes after the start of the packet number, whose length is itself among
the masked bits. A packet number is sent by its low bytes only, and the receiver takes the one
nearest to the number it expects.

The cipher and the mask function are parameters: all that is used of the cipher is that it
decrypts what it encrypted, and the length of its tag. `openPacket_sealed`: what was sealed is
opened.
-/

namespace Quic

open Header (Bytes)
open XorMask (xorAt)
open BigEndian (encode decode length_encode)

/-- An AEAD cipher under one key: what `Open` is given is what `Seal` was given. -/
structure Aead where
  encrypt : (nonce plaintext additionalData : Bytes) → Bytes
  decrypt : (nonce ciphertext additionalData : Bytes) → Option Bytes
  decrypt_encrypt : ∀ nonce plaintext ad,
    decrypt nonce (encrypt nonce plaintext ad) ad = some plaintext
  length_encrypt : ∀ nonce plaintext ad, (encrypt nonce plaintext ad).length = plaintext.length + 16

/-- The keys of one encryption level, as a `Sealer` and an `Opener` hold them. -/
structure PacketKeys where
  aead : Aead
  headerMask : (sample : Bytes) → Vector UInt8 5
  iv : Vector UInt8 12

namespace PacketKeys

/-- `putNonce`: the packet number is combined with the last eight bytes. -/
def putNonce (iv : Vector UInt8 12) (pn : ℕ) : Bytes :=
  (List.range 8).foldl
    (fun dst i => dst.modify (11 - i) (· ^^^ UInt8.ofNat (pn >>> (8 * i)))) iv.toList

def headerSample (pkt : Bytes) (pnOffset : ℕ) : Except Error Bytes :=
  let off := pnOffset + 4
  if off + 16 > pkt.length then .error .cryptoSample
  else .ok ((pkt.drop off).take 16)

/-- The first byte: four of its bits in a long header, five in a short one. -/
def maskFirst (mask : Vector UInt8 5) (pkt : Bytes) : Bytes :=
  pkt.modify 0 fun b => b ^^^ (mask[0] &&& if b &&& 0x80 ≠ 0 then 0x0f else 0x1f)

/-- `pkt[pnOffset+i] ^= mask[1+i]` for the bytes of the packet number. -/
def maskNumber (mask : Vector UInt8 5) (pkt : Bytes) (pnOffset pnLen : ℕ) : Bytes :=
  xorAt pkt pnOffset ((mask.toList.drop 1).take pnLen)

def maskHeader (mask : Vector UInt8 5) (pkt : Bytes) (pnOffset pnLen : ℕ) : Bytes :=
  maskNumber mask (maskFirst mask pkt) pnOffset pnLen

variable (k : PacketKeys)

def sealHeader (pkt : Bytes) (pnOffset pnLen : ℕ) : Except Error Bytes := do
  let sample ← headerSample pkt pnOffset
  return maskHeader (k.headerMask sample) pkt pnOffset pnLen

/-- `Seal`, as the packet it appends. -/
def sealPacket (hdr : Bytes) (pnOffset pnLen pn : ℕ) (payload : Bytes) : Except Error Bytes :=
  sealHeader k (hdr ++ k.aead.encrypt (putNonce k.iv pn) payload hdr) pnOffset pnLen

/-- The length of the packet number, told by the first byte. -/
def numberLen (pkt : Bytes) : ℕ := ((pkt.headD 0) &&& 0x03).toNat + 1

/-- `openHeader`: the first byte is unmasked first, to learn how long the packet number is. -/
def openHeader (pkt : Bytes) (pnOffset : ℕ) : Except Error (ℕ × Bytes) := do
  let sample ← headerSample pkt pnOffset
  let mask := k.headerMask sample
  let pkt := maskFirst mask pkt
  let pnLen := numberLen pkt
  if pnOffset + pnLen > pkt.length then .error .cryptoSample
  else return (pnLen, maskNumber mask pkt pnOffset pnLen)

/-- `decodePacketNumber`, on words. -/
def decodePacketNumber (largestAcked truncated pnLen : ℕ) : ℕ :=
  let pnWin := 2 ^ (pnLen * 8)
  let pnHalfWin := pnWin / 2
  let pnMask := pnWin - 1
  let expected := (largestAcked + 1) % u64
  let candidate := (expected - (expected &&& pnMask)) ||| truncated
  if (candidate + pnHalfWin) % u64 ≤ expected ∧ candidate < 2 ^ 62 - pnWin then
    (candidate + pnWin) % u64
  else if candidate > (expected + pnHalfWin) % u64 ∧ candidate ≥ pnWin then candidate - pnWin
  else candidate

/-- What `unprotectHeader` returns, with the packet as it has left it. -/
structure Unprotected where
  pn : ℕ
  pnLen : ℕ
  keyPhase : Bool
  packet : Bytes
  deriving DecidableEq, Repr

def unprotectHeader (pkt : Bytes) (pnOffset largestAcked : ℕ) : Except Error Unprotected := do
  let (pnLen, pkt) ← openHeader k pkt pnOffset
  let truncated := ((pkt.drop pnOffset).take pnLen).foldl
    (fun t b => ((t <<< 8) ||| b.toNat) % u64) 0
  return ⟨decodePacketNumber largestAcked truncated pnLen, pnLen, pkt.headD 0 &&& 0x04 != 0, pkt⟩

def openAEAD (pkt : Bytes) (pnOffset pnLen pn : ℕ) : Except Error Bytes :=
  let hdr := pkt.take (pnOffset + pnLen)
  let ct := pkt.drop (pnOffset + pnLen)
  match k.aead.decrypt (putNonce k.iv pn) ct hdr with
  | none => .error .cryptoDecrypt
  | some payload => .ok payload

/-- What `Open` returns, with the header as it has left it in the packet. -/
structure Opened where
  pn : ℕ
  pnLen : ℕ
  payload : Bytes
  header : Bytes
  deriving DecidableEq, Repr

/-- `Open`. -/
def openPacket (pkt : Bytes) (pnOffset largestAcked : ℕ) : Except Error Opened := do
  let u ← unprotectHeader k pkt pnOffset largestAcked
  let payload ← openAEAD k u.packet pnOffset u.pnLen u.pn
  return ⟨u.pn, u.pnLen, payload, u.packet.take (pnOffset + u.pnLen)⟩

/-! ## Packet numbers -/

/-- The candidate: the expected number with its low bytes replaced. -/
theorem candidate_eq {w expected truncated : ℕ} (h : truncated < 2 ^ w) :
    (expected - (expected &&& (2 ^ w - 1))) ||| truncated =
      expected / 2 ^ w * 2 ^ w + truncated := by
  have hhigh : expected - expected % 2 ^ w = expected / 2 ^ w * 2 ^ w := by
    have hsplit := Nat.div_add_mod expected (2 ^ w)
    rw [Nat.mul_comm] at hsplit
    omega
  have hor := Nat.shiftLeft_add_eq_or_of_lt (a := expected / 2 ^ w) h
  rw [Nat.shiftLeft_eq] at hor
  rw [Nat.and_two_pow_sub_one_eq_mod, hhigh, hor]

/-- Two numbers less than a window apart are in the same window or in neighbouring ones. -/
theorem window_cases {w m n : ℕ} (hw : 0 < w) (hmn : m < n + w) (hnm : n < m + w) :
    m / w * w = n / w * w ∨ m / w * w = n / w * w + w ∨ n / w * w = m / w * w + w := by
  have hm := Nat.div_add_mod' m w
  have hn := Nat.div_add_mod' n w
  have hm' := Nat.mod_lt m hw
  have hn' := Nat.mod_lt n hw
  rcases Nat.lt_trichotomy (m / w) (n / w) with hlt | heq | hlt
  · right; right
    have hnot : ¬ m / w + 2 ≤ n / w := by
      intro h
      have := Nat.mul_le_mul_right w h
      rw [Nat.add_mul] at this
      omega
    rw [show n / w = m / w + 1 by omega, Nat.succ_mul]
  · left
    rw [heq]
  · right; left
    have hnot : ¬ n / w + 2 ≤ m / w := by
      intro h
      have := Nat.mul_le_mul_right w h
      rw [Nat.add_mul] at this
      omega
    rw [show m / w = n / w + 1 by omega, Nat.succ_mul]

/-- A number within half a window of the expected one is recovered from its low bytes, also at
the two ends of the number space. -/
theorem decodePacketNumber_eq {largest pn pnLen : ℕ} (hpos : 1 ≤ pnLen) (hlen : pnLen ≤ 4)
    (hpn : pn < 2 ^ 62) (habove : pn < largest + 1 + 2 ^ (8 * pnLen - 1))
    (hbelow : largest + 1 < pn + 2 ^ (8 * pnLen - 1)) :
    decodePacketNumber largest (pn % 2 ^ (pnLen * 8)) pnLen = pn := by
  have htrunc : pn % 2 ^ (pnLen * 8) < 2 ^ (pnLen * 8) := Nat.mod_lt _ (Nat.two_pow_pos _)
  have hhalf : 2 ^ (pnLen * 8) = 2 * 2 ^ (8 * pnLen - 1) := by
    rw [← Nat.pow_succ']
    congr 1
    omega
  have hsmall : 2 ^ (pnLen * 8) ≤ 2 ^ 32 := Nat.pow_le_pow_right (by decide) (by omega)
  unfold decodePacketNumber
  simp only [candidate_eq htrunc]
  -- the window of the number is that of the expected one, the next or the one before
  have hsplit := Nat.div_add_mod' pn (2 ^ (pnLen * 8))
  have hexpected := Nat.div_add_mod' (largest + 1) (2 ^ (pnLen * 8))
  have hmod := Nat.mod_lt (largest + 1) (Nat.two_pow_pos (pnLen * 8))
  have hcases := window_cases (w := 2 ^ (pnLen * 8)) (m := pn) (n := largest + 1)
    (Nat.two_pow_pos _) (by omega) (by omega)
  have hword : (largest + 1) % u64 = largest + 1 := by
    rw [u64]
    omega
  rw [hword]
  rw [u64]
  rcases hcases with hsame | hnext | hprev
  · rw [if_neg (by omega), if_neg (by omega)]
    omega
  · rw [if_pos (by omega)]
    omega
  · rw [if_neg (by omega), if_pos (by omega)]
    omega

/-- The bytes of the packet number are read most significant first, and fit in a word. -/
theorem truncated_eq {bs : Bytes} (h : bs.length ≤ 8) :
    bs.foldl (fun t b => ((t <<< 8) ||| b.toNat) % u64) 0 = decode bs ∧
      decode bs < 2 ^ (8 * bs.length) := by
  induction bs using List.reverseRecOn with
  | nil => exact ⟨rfl, by decide⟩
  | append_singleton bs b ih =>
    rw [List.length_append, List.length_singleton] at h
    rcases ih (by omega) with ⟨heq, hlt⟩
    have hb : b.toNat < 2 ^ 8 := b.toNat_lt
    have hor := Nat.shiftLeft_add_eq_or_of_lt (a := decode bs) hb
    rw [Nat.shiftLeft_eq] at hor
    have hnext : decode bs * 256 + b.toNat < 2 ^ (8 * (bs.length + 1)) := by
      rw [show 8 * (bs.length + 1) = 8 * bs.length + 8 by omega, Nat.pow_add]
      omega
    have hword : 2 ^ (8 * (bs.length + 1)) ≤ u64 := Nat.pow_le_pow_right (by decide) (by omega)
    rw [List.foldl_append, List.foldl_cons, List.foldl_nil, heq, BigEndian.decode_concat,
      List.length_append, List.length_singleton, Nat.shiftLeft_eq, ← hor]
    exact ⟨Nat.mod_eq_of_lt (by omega), hnext⟩

/-! ## Nonces -/

/-- The packet number lies over the last eight bytes. -/
theorem putNonce_eq (iv : Vector UInt8 12) (pn : ℕ) :
    putNonce iv pn = iv.toList.take 4 ++ XorMask.xor (iv.toList.drop 4) (encode 8 pn) := by
  have hlen : iv.toList.length = 12 := Vector.length_toList
  unfold putNonce
  match iv.toList, hlen with
  | [a, b, c, d, e, f, g, h, i, j, k, l], _ =>
    simp [List.range, List.range.loop, encode, XorMask.xor, Nat.shiftRight_eq_div_pow,
      Nat.div_div_eq_div_mul]

theorem putNonce_injective (iv : Vector UInt8 12) {pn pn' : ℕ} (hpn : pn < 2 ^ 62)
    (hpn' : pn' < 2 ^ 62) (h : putNonce iv pn = putNonce iv pn') : pn = pn' := by
  rw [putNonce_eq, putNonce_eq] at h
  have hxor := List.append_cancel_left h
  have hlen : (iv.toList.drop 4).length = 8 := by simp
  have henc := XorMask.xor_left_injective (by simp [hlen]) (by simp [hlen]) hxor
  have hdec := congrArg decode henc
  rwa [BigEndian.decode_encode_of_lt (by omega), BigEndian.decode_encode_of_lt (by omega)] at hdec

/-! ## What is sealed is opened -/

/-- The bits of the first byte that are masked. -/
def maskedBits (b : UInt8) : UInt8 := if b &&& 0x80 ≠ 0 then 0x0f else 0x1f

/-- The masked first byte. -/
def hide (mask : Vector UInt8 5) (b : UInt8) : UInt8 := b ^^^ (mask[0] &&& maskedBits b)

/-- The form of the header is not masked. -/
theorem hide_and (mask : Vector UInt8 5) {b keep : UInt8} (h : maskedBits b &&& keep = 0) :
    hide mask b &&& keep = b &&& keep := by
  apply XorMask.xor_and_of_disjoint
  rw [UInt8.and_assoc, h, UInt8.and_zero]

theorem maskedBits_and (b : UInt8) : maskedBits b &&& 0x80 = 0 := by
  unfold maskedBits
  split_ifs <;> decide

theorem hide_hide (mask : Vector UInt8 5) (b : UInt8) : hide mask (hide mask b) = b := by
  have hform : maskedBits (hide mask b) = maskedBits b := by
    unfold maskedBits
    rw [hide_and mask (maskedBits_and b)]
  rw [hide, hform, hide, XorMask.xor_cancel]

theorem maskFirst_cons (mask : Vector UInt8 5) (b : UInt8) (bs : Bytes) :
    maskFirst mask (b :: bs) = hide mask b :: bs := rfl

theorem maskNumber_eq (mask : Vector UInt8 5) {pnLen : ℕ} (hlen : pnLen ≤ 4) (first : UInt8)
    {mid pnb : Bytes} (hpnb : pnb.length = pnLen) (ct : Bytes) :
    maskNumber mask (first :: (mid ++ (pnb ++ ct))) (1 + mid.length) pnLen =
      first :: (mid ++ (XorMask.xor pnb ((mask.toList.drop 1).take pnLen) ++ ct)) := by
  have hmask : ((mask.toList.drop 1).take pnLen).length = pnLen := by
    rw [List.length_take, List.length_drop, Vector.length_toList]
    omega
  have hxor := XorMask.xorAt_append (hpnb.trans hmask.symm) (first :: mid) ct
  rw [List.length_cons, Nat.add_comm] at hxor
  exact hxor

/-- The sample lies behind the packet number, however long that is. -/
theorem headerSample_eq {first : UInt8} {mid pnb ct : Bytes} (hlen : pnb.length ≤ 4)
    (hsample : 20 ≤ pnb.length + ct.length) :
    headerSample (first :: (mid ++ (pnb ++ ct))) (1 + mid.length) =
      .ok ((ct.drop (4 - pnb.length)).take 16) := by
  have hsize : ¬ 1 + mid.length + 4 + 16 > (first :: (mid ++ (pnb ++ ct))).length := by
    rw [List.length_cons, List.length_append, List.length_append]
    omega
  have hdrop : (first :: (mid ++ (pnb ++ ct))).drop (1 + mid.length + 4) =
      ct.drop (4 - pnb.length) := by
    rw [show 1 + mid.length + 4 = (mid.length + 4) + 1 by omega, List.drop_succ_cons,
      List.drop_append, List.drop_of_length_le (by omega : mid.length ≤ mid.length + 4),
      List.nil_append, Nat.add_sub_cancel_left, List.drop_append, List.drop_of_length_le hlen,
      List.nil_append]
  rw [headerSample, if_neg hsize, hdrop]

variable {first : UInt8} {mid payload : Bytes} {pnLen pn : ℕ}

/-- A header with its packet number. -/
def fullHeader (first : UInt8) (mid : Bytes) (pnLen pn : ℕ) : Bytes :=
  first :: (mid ++ encode pnLen pn)

/-- The encrypted payload under a header. -/
def ciphertext (k : PacketKeys) (hdr : Bytes) (pn : ℕ) (payload : Bytes) : Bytes :=
  k.aead.encrypt (putNonce k.iv pn) payload hdr

/-- The sealed packet: the mask is a function of the ciphertext. -/
def sealed (k : PacketKeys) (first : UInt8) (mid : Bytes) (pnLen pn : ℕ) (payload : Bytes) :
    Bytes :=
  let ct := ciphertext k (fullHeader first mid pnLen pn) pn payload
  let mask := k.headerMask ((ct.drop (4 - pnLen)).take 16)
  hide mask first ::
    (mid ++ (XorMask.xor (encode pnLen pn) ((mask.toList.drop 1).take pnLen) ++ ct))

theorem length_ciphertext (hdr : Bytes) (pn : ℕ) (payload : Bytes) :
    (ciphertext k hdr pn payload).length = payload.length + 16 := k.aead.length_encrypt ..

theorem length_maskPart (mask : Vector UInt8 5) (hlen : pnLen ≤ 4) :
    ((mask.toList.drop 1).take pnLen).length = pnLen := by
  rw [List.length_take, List.length_drop, Vector.length_toList]
  omega

theorem sealPacket_eq (hlen : pnLen ≤ 4) (hsample : 4 ≤ pnLen + payload.length) :
    k.sealPacket (fullHeader first mid pnLen pn) (1 + mid.length) pnLen pn payload =
      .ok (sealed k first mid pnLen pn payload) := by
  have hpnb : (encode pnLen pn).length = pnLen := length_encode pnLen pn
  have hct := length_ciphertext k (fullHeader first mid pnLen pn) pn payload
  have hpacket : fullHeader first mid pnLen pn ++ ciphertext k (fullHeader first mid pnLen pn) pn payload =
      first :: (mid ++ (encode pnLen pn ++
        ciphertext k (fullHeader first mid pnLen pn) pn payload)) := by
    rw [fullHeader, List.cons_append, List.append_assoc]
  show sealHeader k (fullHeader first mid pnLen pn ++ ciphertext k _ pn payload) _ _ = _
  rw [hpacket, sealHeader, headerSample_eq (by omega) (by omega), hpnb]
  show Except.ok (maskHeader _ _ _ _) = _
  rw [maskHeader, maskFirst_cons, maskNumber_eq _ hlen _ hpnb]
  rfl

theorem length_sealed (hlen : pnLen ≤ 4) :
    (sealed k first mid pnLen pn payload).length =
      1 + mid.length + (pnLen + payload.length + 16) := by
  simp only [sealed, List.length_cons, List.length_append, XorMask.length_xor,
    length_encode, length_maskPart _ hlen, length_ciphertext]
  omega

section Opening

variable (hpos : 1 ≤ pnLen) (hlen : pnLen ≤ 4) (hsample : 4 ≤ pnLen + payload.length)
  (hbits : first &&& 0x03 = UInt8.ofNat (pnLen - 1))

include hpos hlen hsample hbits

/-- The header is unmasked: the sample is what it was, and so is the mask. -/
theorem openHeader_sealed :
    k.openHeader (sealed k first mid pnLen pn payload) (1 + mid.length) =
      .ok (pnLen, fullHeader first mid pnLen pn ++
        ciphertext k (fullHeader first mid pnLen pn) pn payload) := by
  have hct := length_ciphertext k (fullHeader first mid pnLen pn) pn payload
  generalize hct' : ciphertext k (fullHeader first mid pnLen pn) pn payload = ct at hct
  generalize hmask : k.headerMask ((ct.drop (4 - pnLen)).take 16) = mask
  have hkey := length_maskPart mask hlen
  have hpnb : (encode pnLen pn).length = pnLen := length_encode pnLen pn
  have hxor : (XorMask.xor (encode pnLen pn)
      ((mask.toList.drop 1).take pnLen)).length = pnLen := by
    rw [XorMask.length_xor, hpnb, hkey, Nat.min_self]
  have hnumber : ∀ bs, numberLen (first :: bs) = pnLen := by
    intro bs
    rw [numberLen, List.headD_cons, hbits, UInt8.toNat_ofNat']
    omega
  rw [sealed, hct', hmask, openHeader, headerSample_eq (by omega) (by omega), hxor]
  show (if _ then _ else _ : Except Error (ℕ × Bytes)) = _
  rw [hmask, maskFirst_cons, hide_hide, hnumber, maskNumber_eq mask hlen first hxor,
    XorMask.xor_xor (hpnb.trans hkey.symm), if_neg, fullHeader, List.cons_append,
    List.append_assoc]
  · rfl
  · rw [List.length_cons, List.length_append, List.length_append]
    omega

variable (hpn : pn < 2 ^ 62) {largest : ℕ} (habove : pn < largest + 1 + 2 ^ (8 * pnLen - 1))
  (hbelow : largest + 1 < pn + 2 ^ (8 * pnLen - 1))

include hpn habove hbelow

/-- The number is recovered from its low bytes. -/
theorem unprotectHeader_sealed :
    k.unprotectHeader (sealed k first mid pnLen pn payload) (1 + mid.length) largest =
      .ok ⟨pn, pnLen, first &&& 0x04 != 0, fullHeader first mid pnLen pn ++
        ciphertext k (fullHeader first mid pnLen pn) pn payload⟩ := by
  have hpnb : (encode pnLen pn).length = pnLen := length_encode pnLen pn
  have hslice : ∀ ct, ((fullHeader first mid pnLen pn ++ ct).drop (1 + mid.length)).take pnLen =
      encode pnLen pn := by
    intro ct
    rw [fullHeader, List.cons_append, Nat.add_comm, List.drop_succ_cons, List.append_assoc,
      List.drop_left, List.take_left' hpnb]
  have htrunc : decode (encode pnLen pn) = pn % 2 ^ (pnLen * 8) := by
    rw [BigEndian.decode_encode, Nat.mul_comm, Nat.pow_mul]
  rw [unprotectHeader, openHeader_sealed k hpos hlen hsample hbits]
  show Except.ok (Unprotected.mk _ _ _ _) = _
  rw [hslice, (truncated_eq (by omega)).1, htrunc,
    decodePacketNumber_eq hpos hlen hpn habove hbelow]
  rfl

/-- What was sealed is opened: the number, its length, the payload, and the header as it was. -/
theorem openPacket_sealed :
    k.openPacket (sealed k first mid pnLen pn payload) (1 + mid.length) largest =
      .ok ⟨pn, pnLen, payload, fullHeader first mid pnLen pn⟩ := by
  have hhead : (fullHeader first mid pnLen pn).length = 1 + mid.length + pnLen := by
    rw [fullHeader, List.length_cons, List.length_append, length_encode]
    omega
  have hplain : k.openAEAD (fullHeader first mid pnLen pn ++
      ciphertext k (fullHeader first mid pnLen pn) pn payload) (1 + mid.length) pnLen pn =
        .ok payload := by
    rw [openAEAD, List.take_left' hhead, List.drop_left' hhead, ciphertext,
      k.aead.decrypt_encrypt]
  rw [openPacket, unprotectHeader_sealed k hpos hlen hsample hbits hpn habove hbelow]
  show (k.openAEAD _ _ _ _ >>= _) = _
  rw [hplain]
  show Except.ok (Opened.mk _ _ _ _) = _
  rw [List.take_left' hhead]

end Opening

end PacketKeys

end Quic
