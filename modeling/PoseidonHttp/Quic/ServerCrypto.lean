import PoseidonHttp.Quic.RecvStream

/-!
# The client's handshake flight at the server

`completeHandshake` of `quic/listener.go` assembles the CRYPTO frames of each Handshake packet by
themselves and hands TLS what they give, packet after packet. `fed_of_whole`: that is the client's
stream where the first packet that carries any of it carries all of it.
`second_packet_zero_filled`: a flight in two packets reaches TLS with zeros in front of its second
part.
-/

namespace Quic.ServerCrypto

open Header (Bytes)
open Slice (copyAt)

def maxInitialCrypto : ℕ := 65536

/-- `OnCrypto` of the `cryptoReassembler`, whose `end` is the length of its buffer; `none` is
`ErrCryptoBufferExceeded`. -/
def onCrypto (buf : Bytes) (f : StreamChunk) : Option Bytes :=
  if maxInitialCrypto < f.stop then none
  else some (copyAt (buf ++ List.replicate (f.stop - buf.length) 0) f.offset f.data)

/-- A packet of the client with its CRYPTO frames; `opener` opens those of the Handshake level. -/
structure Packet where
  handshake : Bool
  frames : List StreamChunk

/-- What `handshakeCrypto` appends for a packet: nothing where `ParseFrames` fails. -/
def Packet.assembled (p : Packet) : Bytes :=
  if p.handshake then (p.frames.foldlM onCrypto []).getD [] else []

def handshakeCrypto (datagram : List Packet) : Bytes := datagram.flatMap Packet.assembled

/-- The bytes that `completeHandshake` has given TLS, which is complete with `H`. -/
def completeHandshake (H : Bytes) (datagrams : List (List Packet)) : Bytes :=
  datagrams.foldl (fun given d => if H <+: given then given else given ++ handshakeCrypto d) []

/-- The packet has CRYPTO frames of the Handshake level, and not only empty ones at the start of
the stream. -/
def Packet.carries (p : Packet) : Bool := p.handshake && p.frames.any fun f => 0 < f.stop

/-- Its frames are cut from `H` and leave nothing of it out. -/
structure Packet.Whole (H : Bytes) (p : Packet) : Prop where
  held : ∀ f ∈ p.frames, f.Held H
  covered : ∀ x < H.length, Covered p.frames x

variable {H buf : Bytes}

/-- A frame of `H` puts its bytes in their places, and the padding spoils no byte that was. -/
theorem onCrypto_held (hlen : H.length ≤ maxInitialCrypto) {f : StreamChunk} (hf : f.Held H)
    (hbuf : buf.length ≤ H.length) :
    ∃ buf', onCrypto buf f = some buf' ∧ buf'.length ≤ H.length ∧
      ∀ x, f.Covers x ∨ buf[x]? = H[x]? → buf'[x]? = H[x]? := by
  have hstop := hf.stop_le
  have hoffset := f.offset_le_stop
  have hpad : (buf ++ List.replicate (f.stop - buf.length) 0).length = max buf.length f.stop := by
    rw [List.length_append, List.length_replicate]
    omega
  refine ⟨_, if_neg (by omega), ?_, ?_⟩
  · rw [Slice.length_copyAt _ (by omega), hpad]
    omega
  · intro x hx
    rw [Slice.getElem?_copyAt _ (by omega), hpad]
    split_ifs with hin
    · have hlt : x < f.stop := hin.2.1
      rw [hf.data, Slice.getElem?_slice, if_pos (by omega), Nat.add_sub_cancel' hin.1]
    have hold : buf[x]? = H[x]? := by
      refine hx.resolve_left fun hcovers => hin ⟨hcovers.1, hcovers.2, ?_⟩
      exact lt_of_lt_of_le hcovers.2 (le_max_right _ _)
    by_cases hlt : x < buf.length
    · rw [List.getElem?_append_left hlt, hold]
    · -- `H` has no byte there either
      have hend : H.length ≤ x := by
        rw [List.getElem?_eq_none (Nat.le_of_not_lt hlt)] at hold
        exact List.getElem?_eq_none_iff.mp hold.symm
      rw [List.getElem?_eq_none hend, List.getElem?_eq_none (by omega)]

theorem foldlM_onCrypto (hlen : H.length ≤ maxInitialCrypto) {fs : List StreamChunk}
    (hheld : ∀ f ∈ fs, f.Held H) (hbuf : buf.length ≤ H.length) :
    ∃ buf', fs.foldlM onCrypto buf = some buf' ∧ buf'.length ≤ H.length ∧
      ∀ x, Covered fs x ∨ buf[x]? = H[x]? → buf'[x]? = H[x]? := by
  induction fs generalizing buf with
  | nil => exact ⟨buf, rfl, hbuf, fun x hx => hx.resolve_left nofun⟩
  | cons f fs ih =>
    have ⟨hf, hfs⟩ := List.forall_mem_cons.mp hheld
    have ⟨buf₁, hone, hlen₁, hput⟩ := onCrypto_held hlen hf hbuf
    have ⟨buf₂, hrest, hlen₂, hput₂⟩ := ih hfs hlen₁
    refine ⟨buf₂, by rw [List.foldlM_cons, hone]; exact hrest, hlen₂, fun x hx => hput₂ x ?_⟩
    rw [covered_cons, or_assoc, or_left_comm] at hx
    exact hx.imp_right (hput x)

theorem Packet.Whole.assembled {p : Packet} (h : p.Whole H) (hlen : H.length ≤ maxInitialCrypto)
    (hcarries : p.carries = true) : p.assembled = H := by
  have hnil : ([] : Bytes).length ≤ H.length := Nat.zero_le _
  have ⟨buf, hfold, hle, hput⟩ := foldlM_onCrypto hlen h.held hnil
  rw [Packet.assembled, if_pos (Bool.and_eq_true_iff.mp hcarries).1, hfold, Option.getD_some]
  refine List.ext_getElem? fun x => ?_
  by_cases hx : x < H.length
  · exact hput x (.inl (h.covered x hx))
  · rw [List.getElem?_eq_none (by omega), List.getElem?_eq_none (by omega)]

theorem Packet.assembled_of_not_carries {p : Packet} (h : p.carries = false) :
    p.assembled = [] := by
  rcases Bool.and_eq_false_iff.mp h with h | h
  · rw [Packet.assembled, h]
    rfl
  · have hfold : p.frames.foldlM onCrypto [] = some [] := by
      generalize p.frames = fs at h
      induction fs with
      | nil => rfl
      | cons f fs ih =>
        rw [List.any_cons, Bool.or_eq_false_iff, decide_eq_false_iff_not] at h
        have hone : onCrypto [] f = some [] := by
          have hstop := Nat.eq_zero_of_not_pos h.1
          have hoffset := hstop ▸ f.offset_le_stop
          rw [onCrypto, hstop]
          exact congrArg some (List.length_eq_zero_iff.mp (Slice.length_copyAt _ hoffset))
        rw [List.foldlM_cons, hone]
        exact ih h.2
    rw [Packet.assembled, hfold]
    exact ite_self _

theorem handshakeCrypto_of_none {d : List Packet} (h : d.any Packet.carries = false) :
    handshakeCrypto d = [] := by
  rw [handshakeCrypto, List.flatMap_eq_nil_iff]
  exact fun p hp => p.assembled_of_not_carries (Bool.eq_false_iff.mpr (List.any_eq_false.mp h p hp))

theorem handshakeCrypto_of_one (hlen : H.length ≤ maxInitialCrypto) {d : List Packet}
    (hsome : d.any Packet.carries = true) (hone : d.countP Packet.carries ≤ 1)
    (hwhole : ∀ p ∈ d, p.carries = true → p.Whole H) : handshakeCrypto d = H := by
  induction d with
  | nil => cases hsome
  | cons p d ih =>
    have ⟨hp, hd⟩ := List.forall_mem_cons.mp hwhole
    rw [handshakeCrypto, List.flatMap_cons, ← handshakeCrypto]
    cases hcarries : p.carries with
    | false =>
      rw [List.any_cons, hcarries, Bool.false_or] at hsome
      rw [List.countP_cons_of_neg (by simp [hcarries])] at hone
      rw [p.assembled_of_not_carries hcarries]
      exact ih hsome hone hd
    | true =>
      -- the others carry nothing
      rw [List.countP_cons_of_pos hcarries] at hone
      have hnone : d.any Packet.carries = false := by
        rw [List.any_eq_false]
        exact List.countP_eq_zero.mp (by omega)
      rw [(hp hcarries).assembled hlen hcarries, handshakeCrypto_of_none hnone, List.append_nil]

/-- **TLS is fed the client's flight**, whatever the order of delivery and however often, where
the first datagram that brings any of it has all of it in one packet: nothing at first, and `H`
from that datagram on, whatever follows. -/
theorem fed_of_whole (hlen : H.length ≤ maxInitialCrypto) (datagrams : List (List Packet))
    (hfirst : ∀ d ∈ datagrams.find? fun d => d.any Packet.carries,
      d.countP Packet.carries ≤ 1 ∧ ∀ p ∈ d, p.carries = true → p.Whole H) :
    completeHandshake H datagrams =
      if datagrams.any fun d => d.any Packet.carries then H else [] := by
  induction datagrams with
  | nil => rfl
  | cons d ds ih =>
    rw [completeHandshake, List.foldl_cons, List.any_cons]
    cases hd : d.any Packet.carries with
    | false =>
      rw [List.find?_cons_of_neg (by simp [hd])] at hfirst
      rw [handshakeCrypto_of_none hd, List.append_nil, ite_self]
      exact ih hfirst
    | true =>
      rw [List.find?_cons_of_pos (by exact hd)] at hfirst
      have ⟨hone, hwhole⟩ := hfirst d rfl
      rw [handshakeCrypto_of_one hlen hd hone hwhole, List.nil_append]
      -- with all of it, the loop is over
      have hover : List.foldl (fun given d => if H <+: given then given
          else given ++ handshakeCrypto d) H ds = H := by
        apply List.foldl_fixed'
        exact fun d => if_pos (List.prefix_refl H)
      by_cases hnil : H = [] <;> simp_all

/-- An empty frame before, and a part of it sent again after. -/
theorem fed_of_whole_reordered :
    completeHandshake [7, 8] [[⟨true, [⟨0, []⟩]⟩],
      [⟨true, [⟨1, [8]⟩, ⟨0, [7]⟩]⟩, ⟨false, [⟨0, [1]⟩]⟩], [⟨true, [⟨1, [8]⟩]⟩]] = [7, 8] := by
  refine fed_of_whole (by decide) _ ?_
  have hwhole : Packet.Whole [7, 8] ⟨true, [⟨1, [8]⟩, ⟨0, [7]⟩]⟩ := by
    refine ⟨by decide, fun x hx => ?_⟩
    simp [Covered, StreamChunk.Covers, StreamChunk.stop] at hx ⊢
    omega
  simp [Packet.carries, StreamChunk.stop, hwhole]

theorem second_packet_zero_filled :
    completeHandshake [7, 8] [[⟨true, [⟨0, [7]⟩]⟩], [⟨true, [⟨1, [8]⟩]⟩]] = [7, 0, 8] := by
  decide

end Quic.ServerCrypto
