import PoseidonHttp.Header
import PoseidonHttp.Lib.BigEndian
import PoseidonHttp.Lib.Framing
import PoseidonHttp.Lib.Growth

/-!
# gRPC message framing

`framing.go`: every message is a flag byte, its length in four bytes and its payload. The decoder
gets them in DATA chunks that know nothing of message boundaries. It holds what is pending in a
buffer of its own, or reads it where it lies in a chunk of its caller's.

`wire` is the format, and `Session` a decoder with a record of its use.

* `second_prefix_drops_first`: `AppendMessagePrefix` onto a buffer without room for five more
  bytes starts over, and what was in the buffer is lost.
* `framing_exact_iff_roomy`: the decoder returns what reading everything in one go gives while no
  frame has 2^32 bytes or more, and what was written is read back where no prefix is appended to
  such a buffer.
-/

namespace Grpc

open Header (Bytes)
open Framing Slice
open Growth (Allocator Buf doubling)
open BigEndian (decode encode length_encode)

/-- A flag byte and a length. -/
def prefixLen : ℕ := 5

def defaultMaxMessageSize : ℕ := 4 <<< 20

/-- `ErrCompressed`, `ErrMessageTooLarge` with what its two texts report, and the panic of a slice
expression whose end comes before its start. -/
inductive FramingErr where
  | compressed
  | messageTooLarge (n limit : ℕ)
  | messageTooLong (n : ℤ)
  | outOfRange
  deriving DecidableEq

/-! ## The decoder -/

/-- Where the bytes of a slice lie. -/
inductive Home where
  /-- In the decoder's own buffer. -/
  | own
  /-- In a chunk of the caller's. -/
  | chunk
  deriving DecidableEq

/-- A slice, and where it points. -/
structure View where
  home : Home
  bytes : Bytes
  deriving DecidableEq

/-- The slabs given back to the pool of DATA buffers, in order. A slab is known by a number. -/
abbrev SlabPool := List ℕ

/-- `putDataSlab`; there may be no slab. -/
def putDataSlab (slab : Option ℕ) (pool : SlabPool) : SlabPool := pool ++ slab.toList

structure Decoder where
  buf : View := ⟨.own, []⟩
  off : ℕ := 0
  max : ℤ := 0
  own : Bytes := []
  borrowed : Option ℕ := none
  borrowing : Bool := false
  deriving DecidableEq

namespace Decoder

variable (d : Decoder) (pool : SlabPool)

/-- `Pending`: the number of bytes not yet returned. -/
def pending : ℤ := d.buf.bytes.length - d.off

/-- `buf[off:]`, the bytes not yet returned. -/
def avail : Bytes := d.buf.bytes.drop d.off

def limit : ℕ := if d.max ≤ 0 then defaultMaxMessageSize else d.max.toNat

def endBorrow : Decoder × SlabPool :=
  if d.borrowing then
    ({ d with own := d.avail, buf := ⟨.own, d.avail⟩, off := 0, borrowed := none,
              borrowing := false }, putDataSlab d.borrowed pool)
  else (d, pool)

def release : Decoder × SlabPool := d.endBorrow pool

def pushBorrowed (chunk : Bytes) (slab : Option ℕ) : (Decoder × SlabPool) × Bool :=
  if chunk.length = 0 ∨ d.pending ≠ 0 then ((d, pool), false)
  else
    let r := d.endBorrow pool
    (({ r.1 with buf := ⟨.chunk, chunk⟩, off := 0, borrowed := slab, borrowing := true }, r.2), true)

/-- `compact`, which is called with `buf` in the decoder's own buffer. -/
def compact : Decoder :=
  if d.off = 0 then d
  else if d.off = d.own.length then { d with own := [], buf := ⟨.own, []⟩, off := 0 }
  else if d.own.length ≤ d.off * 2 then
    { d with own := d.own.drop d.off, buf := ⟨.own, d.own.drop d.off⟩, off := 0 }
  else d

def push (chunk : Bytes) : Decoder × SlabPool :=
  if chunk.length = 0 then (d, pool)
  else
    let r := d.endBorrow pool
    let d := r.1.compact
    ({ d with own := d.own ++ chunk, buf := ⟨.own, d.own ++ chunk⟩ }, r.2)

/-- How a caller hands over a chunk: it may ask for a borrow; a chunk that is not borrowed is
copied, and its slab goes back at once. -/
def give (chunk : Bytes) (slab : Option ℕ) (borrow : Bool) : Decoder × SlabPool :=
  if borrow = true ∧ (d.pushBorrowed pool chunk slab).2 = true then
    (d.pushBorrowed pool chunk slab).1
  else ((d.push pool chunk).1, putDataSlab slab (d.push pool chunk).2)

/-- `Next`: no message means that more bytes are needed. -/
def next : Decoder × Except FramingErr (Option Bytes) :=
  let avail := d.avail
  if avail.length < prefixLen then (d, .ok none)
  else if avail.head? ≠ some 0 then (d, .error .compressed)
  else
    let n := decode (slice avail 1 prefixLen)
    if d.limit < n then (d, .error (.messageTooLarge n d.limit))
    else if avail.length - prefixLen < n then (d, .ok none)
    else
      let d := { d with off := d.off + (prefixLen + n) }
      -- this sum is one of 32-bit words
      let stop := (prefixLen + n) % 2 ^ 32
      if stop < prefixLen then (d, .error .outOfRange)
      else (d, .ok (some (slice avail prefixLen stop)))

end Decoder

/-! ## The format -/

/-- What is decided about a frame whose header is complete. -/
def payloadFront (limit : ℕ) (flag : UInt8) (n : ℕ) (rest : Bytes) : Front Bytes FramingErr :=
  if flag ≠ 0 then .broken .compressed
  else if limit < n then .broken (.messageTooLarge n limit)
  else if rest.length < n then .short
  else .item (rest.take n) (prefixLen + n)

/-- What stands at the front of a string of messages, none of them longer than `limit`. -/
def wireFront (limit : ℕ) : Bytes → Front Bytes FramingErr
  | flag :: n₃ :: n₂ :: n₁ :: n₀ :: rest =>
    payloadFront limit flag (decode [n₃, n₂, n₁, n₀]) rest
  | _ => .short

theorem wireFront_header {hdr : Bytes} (h : hdr.length = 4) (limit : ℕ) (flag : UInt8)
    (rest : Bytes) :
    wireFront limit (flag :: (hdr ++ rest)) = payloadFront limit flag (decode hdr) rest := by
  obtain ⟨a, b, c, d, rfl⟩ : ∃ a b c d, hdr = [a, b, c, d] := by
    match hdr, h with
    | [a, b, c, d], _ => exact ⟨a, b, c, d, rfl⟩
  rfl

/-- Every string is too short for a header, or it has one. -/
theorem header_cases (s : Bytes) :
    s.length < prefixLen ∨ ∃ flag hdr rest, s = flag :: (hdr ++ rest) ∧ hdr.length = 4 := by
  match s with
  | [] | [_] | [_, _] | [_, _, _] | [_, _, _, _] => exact .inl (by simp [prefixLen])
  | flag :: a :: b :: c :: d :: rest => exact .inr ⟨flag, [a, b, c, d], rest, rfl, rfl⟩

theorem wireFront_of_lt {s : Bytes} (limit : ℕ) (h : s.length < prefixLen) :
    wireFront limit s = .short := by
  match s with
  | [] | [_] | [_, _] | [_, _, _] | [_, _, _, _] => rfl
  | _ :: _ :: _ :: _ :: _ :: rest =>
    simp only [prefixLen, List.length_cons] at h
    omega

theorem payloadFront_eq_item {limit n size : ℕ} {flag : UInt8} {rest m : Bytes} :
    payloadFront limit flag n rest = .item m size ↔
      flag = 0 ∧ n ≤ limit ∧ n ≤ rest.length ∧ m = rest.take n ∧ size = prefixLen + n := by
  unfold payloadFront
  split_ifs with hflag hlimit hshort
  · simp [hflag]
  · simp [Nat.not_le.mpr hlimit]
  · simp [Nat.not_le.mpr hshort]
  · rw [Front.item.injEq]
    constructor
    · rintro ⟨rfl, rfl⟩
      exact ⟨not_not.mp hflag, Nat.not_lt.mp hlimit, Nat.not_lt.mp hshort, rfl, rfl⟩
    · rintro ⟨-, -, -, rfl, rfl⟩
      exact ⟨rfl, rfl⟩

/-- A string that does not need more bytes has a header. -/
theorem header_of_front {limit : ℕ} {s : Bytes} {x : Front Bytes FramingErr}
    (h : wireFront limit s = x) (hx : x ≠ .short) :
    ∃ flag hdr rest, s = flag :: (hdr ++ rest) ∧ hdr.length = 4 ∧
      payloadFront limit flag (decode hdr) rest = x := by
  rcases header_cases s with hlt | ⟨flag, hdr, rest, rfl, hhdr⟩
  · exact absurd (h.symm.trans (wireFront_of_lt limit hlt)) hx
  · exact ⟨flag, hdr, rest, rfl, hhdr, by rw [← wireFront_header hhdr, h]⟩

theorem wireFront_size {limit n : ℕ} {s m : Bytes} (h : wireFront limit s = .item m n) :
    n = prefixLen + m.length ∧ n ≤ s.length := by
  obtain ⟨flag, hdr, rest, rfl, hhdr, hpayload⟩ := header_of_front h nofun
  obtain ⟨-, -, hlen, rfl, rfl⟩ := payloadFront_eq_item.mp hpayload
  rw [List.length_take, List.length_cons, List.length_append, prefixLen]
  omega

/-- Messages in a row. -/
def wire (limit : ℕ) : Format UInt8 Bytes FramingErr where
  front := wireFront limit
  size_pos := by
    intro s m n h
    rw [(wireFront_size h).1, prefixLen]
    omega
  size_le := fun h => (wireFront_size h).2
  item_append := by
    intro s m n t h
    obtain ⟨flag, hdr, rest, rfl, hhdr, hpayload⟩ := header_of_front h nofun
    obtain ⟨hflag, hlimit, hlen, hm, hn⟩ := payloadFront_eq_item.mp hpayload
    rw [List.cons_append, List.append_assoc, wireFront_header hhdr, payloadFront_eq_item]
    refine ⟨hflag, hlimit, ?_, ?_, hn⟩
    · rw [List.length_append]
      omega
    · rw [hm, List.take_append_of_le_length hlen]
  broken_append := by
    intro s e t h
    obtain ⟨flag, hdr, rest, rfl, hhdr, hpayload⟩ := header_of_front h nofun
    rw [List.cons_append, List.append_assoc, wireFront_header hhdr]
    unfold payloadFront at hpayload ⊢
    split_ifs at hpayload ⊢ with hflag hlimit
    · exact hpayload
    · exact hpayload

/-- A string of messages read in one go. -/
def oneShot (max : ℤ) (s : Bytes) : Parse UInt8 Bytes FramingErr :=
  (wire (Decoder.limit { max })).parse s

/-- A message as it stands on the wire. -/
def frame (m : Bytes) : Bytes := 0 :: (encode 4 m.length ++ m)

theorem wireFront_frame {m : Bytes} (h : m.length < 2 ^ 32) (limit : ℕ) (t : Bytes) :
    wireFront limit (frame m ++ t) =
      if limit < m.length then .broken (.messageTooLarge m.length limit)
      else .item m (prefixLen + m.length) := by
  rw [frame, List.cons_append, List.append_assoc, wireFront_header (length_encode 4 _),
    BigEndian.decode_encode_of_lt h, payloadFront, List.take_left, List.length_append,
    if_neg (not_not.mpr rfl), if_neg (show ¬ m.length + t.length < m.length by omega)]

theorem length_frame (m : Bytes) : (frame m).length = prefixLen + m.length := by
  rw [frame, List.length_cons, List.length_append, length_encode, prefixLen]
  omega

/-- The bytes of all frames. -/
def framed (ms : List Bytes) : ℕ := (ms.map fun m => prefixLen + m.length).sum

@[simp] theorem framed_cons (m : Bytes) (ms : List Bytes) :
    framed (m :: ms) = prefixLen + m.length + framed ms := by
  rw [framed, List.map_cons, List.sum_cons, framed]

theorem framed_append (ms ms' : List Bytes) : framed (ms ++ ms') = framed ms + framed ms' := by
  simp [framed]

theorem le_framed {ms : List Bytes} {m : Bytes} (h : m ∈ ms) : prefixLen + m.length ≤ framed ms := by
  induction ms with
  | nil => cases h
  | cons m' ms ih =>
    rw [framed_cons]
    rcases List.mem_cons.mp h with rfl | h
    · omega
    · have := ih h
      omega

theorem length_parse_wire (limit : ℕ) (s : Bytes) :
    s.length = framed ((wire limit).parse s).items + ((wire limit).parse s).rest.length :=
  (wire limit).length_eq_of_parse (fun m => prefixLen + m.length)
    (fun hfront => (wireFront_size hfront).1) s

/-! ## The decoder reads the format -/

namespace Decoder

/-- The slices lie where they should. -/
structure Ok (d : Decoder) : Prop where
  off_le : d.off ≤ d.buf.bytes.length
  owned : d.borrowing = false → d.buf = ⟨.own, d.own⟩ ∧ d.borrowed = none

variable {d : Decoder} {pool : SlabPool} {chunk : Bytes} {slab : Option ℕ}

theorem Ok.pending_eq (h : d.Ok) : d.pending = d.avail.length := by
  have hoff := h.off_le
  rw [pending, avail, List.length_drop]
  omega

/-- What ending a borrow, or giving up the consumed front, leaves of the decoder. -/
structure Settled (d d' : Decoder) : Prop where
  avail_eq : d'.avail = d.avail
  buf_eq : d'.buf = ⟨.own, d'.own⟩
  off_le : d'.off ≤ d'.own.length
  returned : d'.borrowed = none ∧ d'.borrowing = false
  max_eq : d'.max = d.max

theorem Settled.ok {d d' : Decoder} (h : Settled d d') : d'.Ok where
  off_le := by
    rw [h.buf_eq]
    exact h.off_le
  owned := fun _ => ⟨h.buf_eq, h.returned.1⟩

theorem endBorrow_settled (h : d.Ok) (pool : SlabPool) : Settled d (d.endBorrow pool).1 := by
  unfold endBorrow
  split_ifs with hb
  · exact ⟨rfl, rfl, Nat.zero_le _, ⟨rfl, rfl⟩, rfl⟩
  · have hb : d.borrowing = false := Bool.not_eq_true _ ▸ hb
    obtain ⟨hbuf, hborrowed⟩ := h.owned hb
    have hoff := h.off_le
    rw [hbuf] at hoff
    exact ⟨rfl, hbuf, hoff, ⟨hborrowed, hb⟩, rfl⟩

/-- Sliding the bytes to the front moves the window with them. -/
theorem Settled.compact {d d' : Decoder} (h : Settled d d') : Settled d d'.compact := by
  have havail : d'.avail = d'.own.drop d'.off := by rw [avail, h.buf_eq]
  unfold Decoder.compact
  split_ifs with hzero hall hhalf
  · exact h
  · refine ⟨?_, rfl, Nat.zero_le _, h.returned, h.max_eq⟩
    rw [← h.avail_eq, havail, hall, List.drop_length]
    rfl
  · refine ⟨?_, rfl, Nat.zero_le _, h.returned, h.max_eq⟩
    rw [← h.avail_eq, havail]
    rfl
  · exact h

/-- What a decoder becomes when it is given a chunk. -/
structure Given (d : Decoder) (chunk : Bytes) (d' : Decoder) : Prop where
  ok : d'.Ok
  avail_eq : d'.avail = d.avail ++ chunk
  max_eq : d'.max = d.max

theorem Given.limit_eq {d' : Decoder} (h : d.Given chunk d') : d'.limit = d.limit := by
  rw [limit, h.max_eq, limit]

theorem push_given (h : d.Ok) : d.Given chunk (d.push pool chunk).1 := by
  unfold push
  split_ifs with hempty
  · rw [List.length_eq_zero_iff.mp hempty]
    exact ⟨h, (List.append_nil _).symm, rfl⟩
  have hs : Settled d (d.endBorrow pool).1.compact := (endBorrow_settled h pool).compact
  refine ⟨⟨?_, fun _ => ⟨rfl, hs.returned.1⟩⟩, ?_, hs.max_eq⟩
  · have hoff := hs.off_le
    simp only [List.length_append]
    omega
  · rw [← hs.avail_eq, avail, avail, hs.buf_eq]
    exact List.drop_append_of_le_length hs.off_le

/-- A chunk is borrowed only where nothing is pending, so that it is all there is to read. -/
theorem pushBorrowed_given (h : d.Ok) (haccept : (d.pushBorrowed pool chunk slab).2 = true) :
    d.Given chunk (d.pushBorrowed pool chunk slab).1.1 := by
  unfold pushBorrowed at haccept ⊢
  by_cases hrefuse : chunk.length = 0 ∨ d.pending ≠ 0
  · rw [if_pos hrefuse] at haccept
    cases haccept
  · rw [if_neg hrefuse]
    have hnone : d.avail = [] := by
      have hpending := h.pending_eq
      exact List.length_eq_zero_iff.mp (by omega)
    refine ⟨⟨Nat.zero_le _, nofun⟩, ?_, (endBorrow_settled h pool).max_eq⟩
    rw [hnone]
    rfl

theorem give_given (h : d.Ok) (pool : SlabPool) (chunk : Bytes) (slab : Option ℕ) (borrow : Bool) :
    d.Given chunk (d.give pool chunk slab borrow).1 := by
  unfold give
  split_ifs with haccept
  · exact pushBorrowed_given h haccept.2
  · exact push_given h

/-- What `Next` does about what stands at the front; the end of a frame of 2^32 bytes or more wraps
to before its payload. -/
def answer (d : Decoder) : Front Bytes FramingErr → Decoder × Except FramingErr (Option Bytes)
  | .item m n =>
    ({ d with off := d.off + n }, if 2 ^ 32 ≤ n then .error .outOfRange else .ok (some m))
  | .short => (d, .ok none)
  | .broken e => (d, .error e)

theorem next_eq (d : Decoder) : d.next = d.answer ((wire d.limit).front d.avail) := by
  show d.next = d.answer (wireFront d.limit d.avail)
  unfold next
  rcases header_cases d.avail with hlt | ⟨flag, hdr, rest, havail, hhdr⟩
  · rw [if_pos hlt, wireFront_of_lt d.limit hlt]
    rfl
  have hlen : d.avail.length = prefixLen + rest.length := by
    rw [havail, List.length_cons, List.length_append, prefixLen]
    omega
  have hdecode : slice d.avail 1 prefixLen = hdr := by
    rw [havail, slice, List.drop_one]
    exact List.take_left' hhdr
  have hpayload (n : ℕ) : slice d.avail prefixLen (prefixLen + n) = rest.take n := by
    have hsplit : d.avail = (flag :: hdr) ++ rest := havail
    have hfive : (flag :: hdr).length = prefixLen := by rw [List.length_cons, hhdr, prefixLen]
    rw [slice, hsplit, ← hfive, List.drop_left, Nat.add_sub_cancel_left]
  have hhead : d.avail.head? = some flag := by rw [havail, List.head?_cons]
  have hshort (n : ℕ) : d.avail.length - prefixLen < n ↔ rest.length < n := by omega
  have hword : decode hdr < 2 ^ 32 := (BigEndian.decode_lt hdr).trans_eq (by rw [hhdr]; rfl)
  have hwraps : (prefixLen + decode hdr) % 2 ^ 32 < prefixLen ↔ 2 ^ 32 ≤ prefixLen + decode hdr := by
    rw [prefixLen]
    omega
  rw [if_neg (by omega), hhead, hdecode, havail, wireFront_header hhdr, payloadFront]
  simp only [ne_eq, Option.some.injEq, ← havail, hshort, hwraps]
  split_ifs with _ _ _ hlong
  · rfl
  · rfl
  · rw [answer, if_pos hlong]
  · rw [answer, if_neg hlong, Nat.mod_eq_of_lt (Nat.not_le.mp hlong), hpayload]
  · rfl

/-- No frame of 2^32 bytes or more stands at the front. -/
def Fits (d : Decoder) : Prop := ∀ m n, (wire d.limit).front d.avail = .item m n → n < 2 ^ 32

theorem fits_of_next {r : Option Bytes} (h : d.next.2 = .ok r) : d.Fits := by
  intro m n hfront
  by_contra hlong
  rw [next_eq, hfront, answer, if_pos (Nat.not_lt.mp hlong)] at h
  cases h

theorem Fits.answer_item (h : d.Fits) {m : Bytes} {n : ℕ}
    (hfront : (wire d.limit).front d.avail = .item m n) :
    d.answer (.item m n) = ({ d with off := d.off + n }, .ok (some m)) := by
  rw [answer, if_neg (Nat.not_le.mpr (h m n hfront))]

end Decoder

/-! ## A decoder in use -/

inductive Op where
  /-- A DATA chunk and its slab; the caller asks for a borrow first, or copies at once. -/
  | chunk (bytes : Bytes) (slab : Option ℕ) (borrow : Bool)
  | next
  | release
  deriving DecidableEq

/-- A decoder, the pool of slabs, and what has happened so far. -/
structure Session where
  dec : Decoder
  pool : SlabPool := []
  /-- The bytes the decoder was given. -/
  pushed : Bytes := []
  /-- The messages `Next` returned, and the first error. -/
  messages : List Bytes := []
  err : Option FramingErr := none
  deriving DecidableEq

/-- The bytes that are pushed. -/
def Op.bytes : Op → Bytes
  | .chunk bytes _ _ => bytes
  | .next | .release => []

namespace Session

/-- A zero decoder with a maximum. -/
def start (max : ℤ) : Session := { dec := { max } }

def step (s : Session) : Op → Session
  | .chunk bytes slab borrow =>
    let r := s.dec.give s.pool bytes slab borrow
    { s with dec := r.1, pool := r.2, pushed := s.pushed ++ bytes }
  | .next =>
    match s.dec.next with
    | (d, .ok (some m)) => { s with dec := d, messages := s.messages ++ [m] }
    | (d, .ok none) => { s with dec := d }
    | (d, .error e) => { s with dec := d, err := s.err <|> some e }
  | .release => { s with dec := (s.dec.release s.pool).1, pool := (s.dec.release s.pool).2 }

def run (s : Session) (ops : List Op) : Session := ops.foldl step s

/-- The session is on its way to what reading everything in one go gives. -/
structure Sound (max : ℤ) (s : Session) : Prop where
  ok : s.dec.Ok
  max_eq : s.dec.max = max
  carries : (wire s.dec.limit).Carries s.messages s.dec.avail s.pushed
  failed : ∀ e, s.err = some e → (wire s.dec.limit).front s.dec.avail = .broken e

variable {max : ℤ} {s : Session}

/-- The decoder has been given a chunk. -/
theorem Sound.given {d : Decoder} {bytes : Bytes} (h : s.Sound max) (hgiven : s.dec.Given bytes d)
    (pool : SlabPool) : Sound max { s with dec := d, pool, pushed := s.pushed ++ bytes } := by
  have hlimit := hgiven.limit_eq
  refine ⟨hgiven.ok, hgiven.max_eq.trans h.max_eq, ?_, ?_⟩
  · rw [hlimit, hgiven.avail_eq]
    exact h.carries.push bytes
  · intro e he
    rw [hlimit, hgiven.avail_eq]
    exact (wire s.dec.limit).broken_append bytes (h.failed e he)

theorem Sound.next (h : s.Sound max) (hfits : s.dec.Fits) : (s.step .next).Sound max := by
  unfold step
  rw [s.dec.next_eq]
  cases hfront : (wire s.dec.limit).front s.dec.avail with
  | item m n =>
    rw [hfits.answer_item hfront]
    have hdrop : s.dec.avail.drop n = s.dec.buf.bytes.drop (s.dec.off + n) := List.drop_drop
    have hle := (wire s.dec.limit).size_le hfront
    have hoff := h.ok.off_le
    rw [Decoder.avail, List.length_drop] at hle
    refine ⟨⟨?_, h.ok.owned⟩, h.max_eq, ?_, ?_⟩
    · show s.dec.off + n ≤ s.dec.buf.bytes.length
      omega
    · show (wire s.dec.limit).Carries (s.messages ++ [m]) (s.dec.buf.bytes.drop (s.dec.off + n)) _
      rw [← hdrop]
      exact h.carries.next hfront
    · -- an error that was reported is still there, so no message can be
      intro e he
      have hbroken := h.failed e he
      rw [hfront] at hbroken
      cases hbroken
  | short =>
    exact { h with }
  | broken e =>
    refine ⟨h.ok, h.max_eq, h.carries, ?_⟩
    intro e' he'
    cases hseen : s.err with
    | none =>
      simp only [hseen] at he'
      exact (Option.some.inj he') ▸ hfront
    | some e₀ =>
      simp only [hseen] at he'
      exact h.failed e' (hseen.trans he')

/-- Ending a borrow gives the decoder nothing new. -/
theorem Sound.release (h : s.Sound max) : (s.step .release).Sound max := by
  have hs := Decoder.endBorrow_settled h.ok s.pool
  have hgiven : s.dec.Given [] (s.dec.endBorrow s.pool).1 :=
    ⟨hs.ok, by rw [hs.avail_eq, List.append_nil], hs.max_eq⟩
  have hafter := h.given hgiven (s.dec.endBorrow s.pool).2
  rwa [List.append_nil] at hafter

theorem Sound.step (h : s.Sound max) (op : Op) (hfits : op = .next → s.dec.Fits) :
    (s.step op).Sound max := by
  cases op with
  | chunk bytes slab borrow => exact h.given (Decoder.give_given h.ok s.pool bytes slab borrow) _
  | next => exact h.next (hfits rfl)
  | release => exact h.release

theorem step_pushed (s : Session) (op : Op) : (s.step op).pushed = s.pushed ++ op.bytes := by
  cases op with
  | chunk => rfl
  | release => exact (List.append_nil _).symm
  | next =>
    rw [step, Op.bytes, List.append_nil]
    split <;> rfl

/-- Where the messages of all that is pushed, now and later, are small enough, the next one is. -/
theorem Sound.fits (h : s.Sound max) (t : Bytes)
    (hsmall : ∀ m ∈ (oneShot max (s.pushed ++ t)).items, prefixLen + m.length < 2 ^ 32) :
    s.dec.Fits := by
  intro m n hfront
  rw [(wireFront_size hfront).1]
  apply hsmall
  have hall : oneShot max (s.pushed ++ t) = (wire s.dec.limit).parse (s.pushed ++ t) := by
    rw [← h.max_eq]
    rfl
  rw [hall, h.carries t, Format.parse_item ((wire s.dec.limit).item_append t hfront)]
  simp

theorem sound_start (max : ℤ) : (start max).Sound max :=
  ⟨⟨Nat.le_refl _, fun _ => ⟨rfl, rfl⟩⟩, rfl, .start, nofun⟩

theorem Sound.run (h : s.Sound max) (ops : List Op)
    (hsmall : ∀ m ∈ (oneShot max (s.pushed ++ ops.flatMap Op.bytes)).items,
      prefixLen + m.length < 2 ^ 32) : (s.run ops).Sound max ∧ (s.run ops).dec.Fits := by
  induction ops generalizing s with
  | nil => exact ⟨h, h.fits [] hsmall⟩
  | cons op ops ih =>
    refine ih (h.step op fun _ => h.fits _ hsmall) ?_
    rw [step_pushed, List.append_assoc]
    exact hsmall

/-- The pending bytes live in the decoder's own buffer and no slab is held. -/
def Unlent (s : Session) : Prop :=
  s.dec.buf.home = .own ∧ s.dec.borrowed = none ∧ s.dec.borrowing = false

/-- The results of `Next` are those of reading the bytes pushed in one go, as far as it was
called. -/
structure Exact (max : ℤ) (s : Session) : Prop where
  returned : s.messages <+: (oneShot max s.pushed).items
  /-- Where `Next` asks for more bytes, everything there is has been returned. -/
  waiting : s.dec.next.2 = .ok none → oneShot max s.pushed = ⟨s.messages, none, s.dec.avail⟩
  /-- Where it reports an error, this is the one that ends the string. -/
  refused : ∀ e, s.dec.next.2 = .error e → oneShot max s.pushed = ⟨s.messages, some e, s.dec.avail⟩
  /-- Where it returns a message, this is the next one. -/
  delivered : ∀ m, s.dec.next.2 = .ok (some m) → s.messages ++ [m] <+: (oneShot max s.pushed).items
  /-- The first error is the only one. -/
  sticky : ∀ e, s.err = some e → s.dec.next.2 = .error e
  pending : s.dec.pending + framed s.messages = s.pushed.length
  released : (s.step .release).Unlent

theorem Sound.exact (h : s.Sound max) (hfits : s.dec.Fits) : s.Exact max := by
  have hlimit : oneShot max s.pushed = (wire s.dec.limit).parse s.pushed := by
    rw [← h.max_eq]
    rfl
  have hnext := s.dec.next_eq
  have hall : oneShot max s.pushed = ((wire s.dec.limit).parse s.dec.avail).prepend s.messages := by
    rw [hlimit, h.carries.parse_eq]
  refine ⟨?_, ?_, ?_, ?_, ?_, ?_, ?_⟩
  · rw [hall]
    exact List.prefix_append _ _
  · intro hwait
    cases hfront : (wire s.dec.limit).front s.dec.avail with
    | short => rw [hlimit, h.carries.parse_of_short hfront]
    | item => simp [hnext, hfront, hfits.answer_item hfront] at hwait
    | broken => simp [hnext, hfront, Decoder.answer] at hwait
  · intro e herr
    cases hfront : (wire s.dec.limit).front s.dec.avail with
    | short => simp [hnext, hfront, Decoder.answer] at herr
    | item => simp [hnext, hfront, hfits.answer_item hfront] at herr
    | broken e' =>
      have he : e' = e := by simpa [hnext, hfront, Decoder.answer] using herr
      rw [hlimit, h.carries.parse_of_broken hfront, he]
  · intro m hm
    cases hfront : (wire s.dec.limit).front s.dec.avail with
    | short | broken => simp [hnext, hfront, Decoder.answer] at hm
    | item m' n =>
      have he : m' = m := by simpa [hnext, hfront, hfits.answer_item hfront] using hm
      rw [hall, Format.parse_item hfront, he, Parse.prepend_prepend]
      exact List.prefix_append _ _
  · intro e he
    rw [hnext, h.failed e he]
    rfl
  · have hwhole := length_parse_wire s.dec.limit s.pushed
    have hrest := length_parse_wire s.dec.limit s.dec.avail
    rw [h.carries.parse_eq, Parse.prepend_items, Parse.prepend_rest, framed_append] at hwhole
    rw [h.ok.pending_eq]
    omega
  · have hs := Decoder.endBorrow_settled h.ok s.pool
    have hhome : (s.dec.endBorrow s.pool).1.buf.home = .own := by rw [hs.buf_eq]
    exact ⟨hhome, hs.returned.1, hs.returned.2⟩

end Session

/-! ## Writing messages -/

/-- The largest length a prefix can carry. -/
def maxUint32 : ℕ := 2 ^ 32 - 1

def appendMessage (a : Allocator) (dst : Buf UInt8) (msg : Bytes) : Except FramingErr (Buf UInt8) :=
  if maxUint32 < msg.length then .error (.messageTooLong msg.length)
  else .ok (((dst.append a [0]).append a (encode 4 msg.length)).append a msg)

/-- `AppendMessagePrefix`; a negative length is a huge one once it is unsigned. -/
def appendMessagePrefix (a : Allocator) (dst : Buf UInt8) (msgLen : ℤ) : Except FramingErr (Buf UInt8) :=
  if msgLen < 0 ∨ maxUint32 < msgLen then .error (.messageTooLong msgLen)
  else
    let dst := if dst.cap - dst.elems.length < prefixLen then Buf.make prefixLen else dst
    .ok ((dst.append a [0]).append a (encode 4 msgLen.toNat))

/-- The two ways of writing a message behind others. -/
inductive Way where
  | appendMessage
  /-- `AppendMessagePrefix` and then the payload. -/
  | appendPrefix
  deriving DecidableEq

/-- One message more in a buffer. -/
def writeOne (a : Allocator) (dst : Buf UInt8) : Way × Bytes → Except FramingErr (Buf UInt8)
  | (.appendMessage, m) => appendMessage a dst m
  | (.appendPrefix, m) => (appendMessagePrefix a dst m.length).map fun dst => dst.append a m

/-- Messages one after the other. -/
def write (a : Allocator) : Buf UInt8 → List (Way × Bytes) → Except FramingErr (Buf UInt8)
  | dst, [] => .ok dst
  | dst, w :: ws => (writeOne a dst w).bind fun dst => write a dst ws

/-- The buffer is empty, or has room for a prefix. -/
def HasRoom (b : Buf UInt8) : Prop := b.elems = [] ∨ prefixLen ≤ b.cap - b.elems.length

/-- Every prefix is appended to a buffer that is empty or has room for it. -/
def Roomy (a : Allocator) (dst : Buf UInt8) (ws : List (Way × Bytes)) : Prop :=
  ∀ pre m post, ws = pre ++ (.appendPrefix, m) :: post → ∀ b, write a dst pre = .ok b → HasRoom b

/-- What a reader with a maximum gets of some messages. -/
def deliverable (limit : ℕ) : List Bytes → List Bytes × Option FramingErr
  | [] => ([], none)
  | m :: ms =>
    if limit < m.length then ([], some (.messageTooLarge m.length limit))
    else (m :: (deliverable limit ms).1, (deliverable limit ms).2)

/-- The messages are read back unchanged and in order, whatever the maximum: up to the first that
is longer, and all of them and nothing else where there is none. -/
def ReadsBack (out : Bytes) (ms : List Bytes) : Prop :=
  ∀ max : ℤ, ((oneShot max out).items, (oneShot max out).fault) =
      deliverable (Decoder.limit { max }) ms ∧
    ((oneShot max out).fault = none → (oneShot max out).rest = [])

section Writing

variable {a : Allocator} {dst b out : Buf UInt8} {w : Way × Bytes} {ws : List (Way × Bytes)}
  {ms : List Bytes}

/-- The prefix of this message is appended to a buffer without room for it. -/
def Drops (dst : Buf UInt8) (w : Way × Bytes) : Prop := w.1 = .appendPrefix ∧ ¬ HasRoom dst

/-- A message comes after what is in the buffer, or in its place. -/
theorem writeOne_bytes (h : writeOne a dst w = .ok b) :
    w.2.length < 2 ^ 32 ∧ (¬ Drops dst w → b.elems = dst.elems ++ frame w.2) ∧
      (Drops dst w → b.elems = frame w.2) := by
  obtain ⟨way, m⟩ := w
  cases way with
  | appendMessage =>
    simp only [writeOne, appendMessage] at h
    split_ifs at h with hlong
    cases h
    refine ⟨?_, ?_, ?_⟩
    · rw [maxUint32] at hlong
      show m.length < 2 ^ 32
      omega
    · simp [frame]
    · rintro ⟨hway, -⟩
      cases hway
  | appendPrefix =>
    simp only [writeOne, appendMessagePrefix] at h
    by_cases hlong : (m.length : ℤ) < 0 ∨ (maxUint32 : ℤ) < m.length
    · rw [if_pos hlong] at h
      cases h
    rw [if_neg hlong] at h
    cases h
    refine ⟨?_, ?_, ?_⟩
    · rw [maxUint32] at hlong
      show m.length < 2 ^ 32
      omega
    · intro hkeep
      -- a buffer that is dropped here was empty
      have hroomy : HasRoom dst := not_not.mp fun hno => hkeep ⟨rfl, hno⟩
      have hkept : (if dst.cap - dst.elems.length < prefixLen then Buf.make prefixLen
          else dst).elems = dst.elems := by
        split_ifs
        · rcases hroomy with hempty | henough
          · rw [hempty]
            rfl
          · omega
        · rfl
      simp [hkept, frame]
    · rintro ⟨-, hno⟩
      have hroom : dst.cap - dst.elems.length < prefixLen := by
        by_contra hge
        exact hno (.inr (Nat.not_lt.mp hge))
      simp [hroom, Buf.make, frame]

theorem write_cons (h : write a dst (w :: ws) = .ok out) :
    ∃ b, writeOne a dst w = .ok b ∧ write a b ws = .ok out := by
  rw [write] at h
  cases hone : writeOne a dst w with
  | error e =>
    rw [hone] at h
    cases h
  | ok b =>
    rw [hone] at h
    exact ⟨b, rfl, h⟩

theorem Roomy.head (h : Roomy a dst (w :: ws)) : ¬ Drops dst w := by
  rintro ⟨hway, hno⟩
  obtain ⟨way, m⟩ := w
  cases hway
  exact hno (h [] m ws rfl dst rfl)

theorem Roomy.tail (h : Roomy a dst (w :: ws)) (hone : writeOne a dst w = .ok b) :
    Roomy a b ws := by
  intro pre m post hws b' hb'
  refine h (w :: pre) m post (by rw [hws, List.cons_append]) b' ?_
  rw [write, hone]
  exact hb'

theorem roomy_cons (hhead : ¬ Drops dst w) (hone : writeOne a dst w = .ok b)
    (htail : Roomy a b ws) : Roomy a dst (w :: ws) := by
  intro pre m post hws b' hb'
  cases pre with
  | nil =>
    cases hb'
    have hw : w = (.appendPrefix, m) := (List.cons.inj hws).1
    exact not_not.mp fun hno => hhead ⟨by rw [hw], hno⟩
  | cons w' pre =>
    obtain ⟨rfl, hrest⟩ := List.cons.inj hws
    rw [write, hone] at hb'
    exact htail pre m post hrest b' hb'

/-- Where no prefix drops anything, the buffer holds all frames in order. -/
theorem write_bytes_of_roomy (h : write a dst ws = .ok out) (hroomy : Roomy a dst ws) :
    out.elems = dst.elems ++ (ws.map Prod.snd).flatMap frame := by
  induction ws generalizing dst with
  | nil =>
    cases h
    simp
  | cons w ws ih =>
    obtain ⟨b, hone, hrest⟩ := write_cons h
    rw [ih hrest (hroomy.tail hone), (writeOne_bytes hone).2.1 hroomy.head]
    simp

/-- What is written is never more than all frames, and less where a prefix has dropped some. -/
theorem write_length (h : write a dst ws = .ok out) :
    out.elems.length ≤ dst.elems.length + framed (ws.map Prod.snd) ∧
      (¬ Roomy a dst ws → out.elems.length < dst.elems.length + framed (ws.map Prod.snd)) := by
  induction ws generalizing dst with
  | nil =>
    cases h
    refine ⟨Nat.le_refl _, ?_⟩
    intro hno
    refine absurd ?_ hno
    intro pre m post hws
    cases pre <;> cases hws
  | cons w ws ih =>
    obtain ⟨b, hone, hrest⟩ := write_cons h
    obtain ⟨-, hkept, hdropped⟩ := writeOne_bytes hone
    obtain ⟨hle, hlt⟩ := ih hrest
    rw [List.map_cons, framed_cons]
    by_cases hdrop : Drops dst w
    · have hnonempty : 0 < dst.elems.length :=
        List.length_pos_iff.mpr fun hnil => hdrop.2 (.inl hnil)
      rw [hdropped hdrop, length_frame] at hle
      exact ⟨by omega, fun _ => by omega⟩
    · rw [hkept hdrop, List.length_append, length_frame] at hle hlt
      refine ⟨by omega, ?_⟩
      intro hno
      have htail : ¬ Roomy a b ws := fun htail => hno (roomy_cons hdrop hone htail)
      have := hlt htail
      omega

/-- Each message has a length its prefix can carry. -/
theorem write_lt (h : write a dst ws = .ok out) : ∀ m ∈ ws.map Prod.snd, m.length < 2 ^ 32 := by
  induction ws generalizing dst with
  | nil => nofun
  | cons w ws ih =>
    obtain ⟨b, hone, hrest⟩ := write_cons h
    exact List.forall_mem_cons.mpr ⟨(writeOne_bytes hone).1, ih hrest⟩

/-- Frames are read back up to the first that is too long. -/
theorem readsBack_frames (hlen : ∀ m ∈ ms, m.length < 2 ^ 32) :
    ReadsBack (ms.flatMap frame) ms := by
  intro max
  rw [oneShot]
  induction ms with
  | nil =>
    have hshort : (wire (Decoder.limit { max })).front [] = .short := rfl
    exact ⟨rfl, fun _ => rfl⟩
  | cons m ms ih =>
    have hfront : (wire (Decoder.limit { max })).front (frame m ++ ms.flatMap frame) = _ :=
      wireFront_frame (hlen m List.mem_cons_self) _ _
    obtain ⟨hitems, hrest⟩ := ih fun m hm => hlen m (List.mem_cons_of_mem _ hm)
    rw [List.flatMap_cons, deliverable]
    split_ifs at hfront ⊢
    · rw [Format.parse_broken hfront]
      exact ⟨rfl, nofun⟩
    · rw [Format.parse_item hfront, ← length_frame, List.drop_left]
      obtain ⟨hi, hf⟩ := Prod.mk.inj hitems
      refine ⟨Prod.ext ?_ hf, hrest⟩
      rw [Parse.prepend_items, hi]
      rfl

theorem deliverable_of_le {limit : ℕ} (h : ∀ m ∈ ms, m.length ≤ limit) :
    deliverable limit ms = (ms, none) := by
  induction ms with
  | nil => rfl
  | cons m ms ih =>
    rw [deliverable, if_neg (Nat.not_lt.mpr (h m List.mem_cons_self)),
      ih fun m hm => h m (List.mem_cons_of_mem _ hm)]

/-- A reader whose maximum is large enough gets all frames, so they were all there. -/
theorem ReadsBack.length_eq {s : Bytes} (h : ReadsBack s ms) : s.length = framed ms := by
  have hle : ∀ m ∈ ms, m.length ≤ Decoder.limit { max := framed ms + 1 } := by
    intro m hm
    have hsum := le_framed hm
    have hlimit : Decoder.limit { max := framed ms + 1 } = framed ms + 1 := by
      show ((framed ms : ℤ) + 1).toNat = framed ms + 1
      omega
    omega
  obtain ⟨hitems, hrest⟩ := h (framed ms + 1)
  rw [deliverable_of_le hle] at hitems
  obtain ⟨hitems, hfault⟩ := Prod.mk.inj hitems
  have hlen := length_parse_wire (Decoder.limit { max := framed ms + 1 }) s
  rw [oneShot] at hitems hrest hfault
  rw [hitems, hrest hfault] at hlen
  exact hlen

/-- Every decoder in use returns what reading in one go gives, as long as none of the messages
pushed has 2^32 - 5 bytes or more; and messages that were written to a new buffer are read back if
and only if no prefix was appended without room for it. -/
theorem framing_exact_iff_roomy (max : ℤ) (ops : List Op)
    (hsmall : ∀ m ∈ (oneShot max (ops.flatMap Op.bytes)).items, prefixLen + m.length < 2 ^ 32)
    (a : Allocator) (cap : ℕ) (ws : List (Way × Bytes)) (out : Buf UInt8)
    (hwrite : write a (Buf.make cap) ws = .ok out) :
    ((Session.start max).run ops).Exact max ∧
      (ReadsBack out.elems (ws.map Prod.snd) ↔ Roomy a (Buf.make cap) ws) := by
  have hran := (Session.sound_start max).run ops hsmall
  refine ⟨hran.1.exact hran.2, ?_, ?_⟩
  · intro hback
    by_contra hno
    have hlt := (write_length hwrite).2 hno
    rw [hback.length_eq] at hlt
    exact absurd hlt (by simp [Buf.make])
  · intro hroomy
    rw [write_bytes_of_roomy hwrite hroomy]
    exact readsBack_frames (write_lt hwrite)

theorem framing_exact_iff_roomy_two :
    write doubling (Buf.make 32) [(.appendMessage, [1, 2]), (.appendPrefix, [3])] =
        .ok ⟨frame [1, 2] ++ frame [3], 32, by decide⟩ ∧
      ((Session.start 0).run [.chunk [0, 0, 0] (some 1) true, .next,
        .chunk [0, 2, 1, 2, 0] (some 2) true, .next, .release]).Exact 0 ∧
      (ReadsBack (frame [1, 2] ++ frame [3]) [[1, 2], [3]] ↔
        Roomy doubling (Buf.make 32) [(.appendMessage, [1, 2]), (.appendPrefix, [3])]) :=
  ⟨rfl, framing_exact_iff_roomy 0 _ (by decide) doubling 32
    [(.appendMessage, [1, 2]), (.appendPrefix, [3])]
    ⟨frame [1, 2] ++ frame [3], 32, by decide⟩ rfl⟩

/-- Eleven bytes fill their buffer to the last byte, and the prefix of the next message takes
their place. -/
theorem second_prefix_drops_first :
    (write doubling (Buf.make 0)
        [(.appendMessage, List.replicate 11 1), (.appendPrefix, [2])]).map Buf.elems =
      .ok (frame [2]) ∧ ¬ ReadsBack (frame [2]) [List.replicate 11 1, [2]] := by
  refine ⟨rfl, ?_⟩
  intro hback
  have hlen := hback.length_eq
  revert hlen
  decide

end Writing

end Grpc
