import PoseidonHttp.Lib.Framing
import PoseidonHttp.Lib.Growth
import PoseidonHttp.Quic.Varint

/-!
# HTTP/3 frames

`frame.go` and the `FrameReader` of `stream.go`. A frame is two variable-length integers, its type
and the length of its payload, and the payload. The reader gets the stream in pieces; it keeps what
it has not returned behind an offset into its array, and slides it to the front where the array
has no room for the next piece.

`wire` is the format, and `readFrame_eq`, `window_feed` say that the reader follows it.
-/

namespace Http3

open Header (Bytes)
open Framing (Format Front)
open Growth (Allocator Buf)
open Quic (maxVarint varintLen readVarint readVarint_le readVarint_append readVarint_writeVarint
  appendV)
open Slice

/-! ## Frame types -/

def frameData : ℕ := 0x00

def frameHeaders : ℕ := 0x01

def frameCancelPush : ℕ := 0x03

def frameSettings : ℕ := 0x04

def framePushPromise : ℕ := 0x05

def frameGoaway : ℕ := 0x07

def frameMaxPushID : ℕ := 0x0d

/-! ## The header -/

structure FrameHeader where
  typ : ℕ
  length : ℕ
  /-- The bytes the header takes. -/
  n : ℕ
  deriving DecidableEq

/-- `ParseFrameHeader`; an incomplete header asks for more bytes. -/
def parseFrameHeader (b : Bytes) : Option FrameHeader :=
  let (typ, tn) := readVarint b
  if tn = 0 then none
  else
    let (length, ln) := readVarint (b.drop tn)
    if ln = 0 then none else some ⟨typ, length, tn + ln⟩

def appendFrameHeader (typ length : ℕ) : Bytes := appendV typ ++ appendV length

/-- A complete frame of a type, as `AppendData` and `AppendHeaders` write it. -/
def appendFrame (typ : ℕ) (payload : Bytes) : Bytes := appendFrameHeader typ payload.length ++ payload

variable {h : FrameHeader}

theorem parseFrameHeader_eq_some {b : Bytes} :
    parseFrameHeader b = some h ↔ (readVarint b).2 ≠ 0 ∧ (readVarint (b.drop (readVarint b).2)).2 ≠ 0 ∧
      h = ⟨(readVarint b).1, (readVarint (b.drop (readVarint b).2)).1,
        (readVarint b).2 + (readVarint (b.drop (readVarint b).2)).2⟩ := by
  simp only [parseFrameHeader]
  split_ifs with htn hln
  · simp [htn]
  · simp [hln]
  · simp [htn, hln, eq_comm]

theorem parseFrameHeader_bounds {b : Bytes} (hh : parseFrameHeader b = some h) :
    0 < h.n ∧ h.n ≤ b.length := by
  obtain ⟨htn, hln, rfl⟩ := parseFrameHeader_eq_some.mp hh
  have hlength := readVarint_le (b.drop (readVarint b).2)
  rw [List.length_drop] at hlength
  exact ⟨by dsimp only; omega, by dsimp only; omega⟩

/-- A header that is complete is read the same when more follows. -/
theorem parseFrameHeader_append {b : Bytes} (hh : parseFrameHeader b = some h)
    (t : Bytes) : parseFrameHeader (b ++ t) = some h := by
  obtain ⟨htn, hln, rfl⟩ := parseFrameHeader_eq_some.mp hh
  rw [parseFrameHeader_eq_some, readVarint_append htn,
    List.drop_append_of_le_length (readVarint_le b), readVarint_append hln]
  exact ⟨htn, hln, rfl⟩

/-- A header that was written is read back. -/
theorem parseFrameHeader_written {typ length : ℕ} (htyp : typ ≤ maxVarint)
    (hlength : length ≤ maxVarint) (t : Bytes) :
    parseFrameHeader (appendFrameHeader typ length ++ t) =
      some ⟨typ, length, (appendFrameHeader typ length).length⟩ := by
  have hpos (v : ℕ) : varintLen v ≠ 0 := by
    unfold varintLen
    split_ifs <;> decide
  rcases readVarint_writeVarint htyp (appendV length ++ t) with ⟨hread, hlen⟩
  rcases readVarint_writeVarint hlength t with ⟨hread', hlen'⟩
  rw [appendFrameHeader, List.append_assoc, parseFrameHeader_eq_some]
  simp only [appendV] at *
  rw [hread, List.drop_left' hlen, hread', List.length_append, hlen, hlen']
  exact ⟨hpos typ, hpos length, rfl⟩

/-! ## The format -/

structure Frame where
  typ : ℕ
  payload : Bytes
  deriving DecidableEq

/-- A declared length above the limit; 0 is no limit. -/
def overLimit (maxLen length : ℕ) : Prop := maxLen ≠ 0 ∧ maxLen < length

instance (maxLen length : ℕ) : Decidable (overLimit maxLen length) :=
  inferInstanceAs (Decidable (_ ∧ _))

/-- What stands at the front of a request stream. -/
def wireFront (maxLen : ℕ) (s : Bytes) : Front Frame Unit :=
  match parseFrameHeader s with
  | none => .short
  | some h =>
    if overLimit maxLen h.length then .broken ()
    else if s.length - h.n < h.length then .short
    else .item ⟨h.typ, slice s h.n (h.n + h.length)⟩ (h.n + h.length)

theorem wireFront_eq_item {maxLen n : ℕ} {s : Bytes} {f : Frame} (h : wireFront maxLen s = .item f n) :
    ∃ hd, parseFrameHeader s = some hd ∧ ¬ overLimit maxLen hd.length ∧
      hd.n + hd.length ≤ s.length ∧ n = hd.n + hd.length ∧
      f = ⟨hd.typ, slice s hd.n (hd.n + hd.length)⟩ := by
  unfold wireFront at h
  cases hhd : parseFrameHeader s with
  | none => simp [hhd] at h
  | some hd =>
    obtain ⟨-, hle⟩ := parseFrameHeader_bounds hhd
    simp only [hhd] at h
    split_ifs at h with hover hshort
    obtain ⟨hf, hn⟩ := Front.item.inj h
    exact ⟨hd, rfl, hover, by omega, hn.symm, hf.symm⟩

theorem wireFront_eq_broken {maxLen : ℕ} {s : Bytes} {e : Unit} (h : wireFront maxLen s = .broken e) :
    ∃ hd, parseFrameHeader s = some hd ∧ overLimit maxLen hd.length := by
  unfold wireFront at h
  cases hhd : parseFrameHeader s with
  | none => simp [hhd] at h
  | some hd =>
    simp only [hhd] at h
    split_ifs at h with hover hshort
    exact ⟨hd, rfl, hover⟩

theorem slice_append_of_le {s : Bytes} {lo hi : ℕ} (hlo : lo ≤ hi) (h : hi ≤ s.length) (t : Bytes) :
    slice (s ++ t) lo hi = slice s lo hi := by
  rw [slice, slice, List.drop_append_of_le_length (by omega), List.take_append_of_le_length]
  rw [List.length_drop]
  omega

/-- Frames with a limit on the declared length. -/
def wire (maxLen : ℕ) : Format UInt8 Frame Unit where
  front := wireFront maxLen
  size_pos := by
    intro s f n h
    obtain ⟨hd, hhd, -, -, rfl, -⟩ := wireFront_eq_item h
    have hpos := (parseFrameHeader_bounds hhd).1
    omega
  size_le := by
    intro s f n h
    obtain ⟨hd, -, -, hle, rfl, -⟩ := wireFront_eq_item h
    exact hle
  item_append := by
    intro s f n t h
    obtain ⟨hd, hhd, hover, hle, rfl, rfl⟩ := wireFront_eq_item h
    have hlong : ¬ (s ++ t).length - hd.n < hd.length := by
      rw [List.length_append]
      omega
    simp only [wireFront, parseFrameHeader_append hhd, if_neg hover, if_neg hlong,
      slice_append_of_le (Nat.le_add_right _ _) hle]
  broken_append := by
    intro s e t h
    obtain ⟨hd, hhd, hover⟩ := wireFront_eq_broken h
    simp only [wireFront, parseFrameHeader_append hhd, if_pos hover]

/-! ## The reader -/

structure FrameReader where
  buf : Buf UInt8
  off : ℕ := 0
  maxLen : ℕ := 0

inductive ReadErr where
  /-- `ErrNeedMore`. -/
  | needMore
  /-- `ErrH3FrameTooLarge`. -/
  | tooLarge
  deriving DecidableEq

namespace FrameReader

/-- The window slides to the head of the array. -/
def compact (r : FrameReader) : FrameReader :=
  { r with
    buf := ⟨r.buf.elems.drop r.off, r.buf.cap, by
      have hfits := r.buf.fits
      rw [List.length_drop]
      omega⟩
    off := 0 }

def feed (a : Allocator) (r : FrameReader) (b : Bytes) : FrameReader :=
  let r := if 0 < r.off ∧ r.buf.cap - r.buf.elems.length < b.length then r.compact else r
  { r with buf := r.buf.append a b }

/-- What has not been returned yet. -/
def window (r : FrameReader) : Bytes := r.buf.elems.drop r.off

/-- `ReadFrame`. The payload is read from the array before the next `feed`. -/
def readFrame (r : FrameReader) : FrameReader × Except ReadErr Frame :=
  match parseFrameHeader r.window with
  | none => (r, .error .needMore)
  | some h =>
    if r.maxLen ≠ 0 ∧ r.maxLen < h.length then (r, .error .tooLarge)
    else if r.window.length - h.n < h.length then (r, .error .needMore)
    else
      ({ r with off := r.off + (h.n + h.length) },
        .ok ⟨h.typ, slice r.buf.elems (r.off + h.n) (r.off + (h.n + h.length))⟩)

def buffered (r : FrameReader) : ℕ := r.buf.elems.length - r.off

variable {r : FrameReader}

theorem buffered_eq (r : FrameReader) : r.buffered = r.window.length := by
  rw [buffered, window, List.length_drop]

/-- The window lies in the array. -/
def Ok (r : FrameReader) : Prop := r.off ≤ r.buf.elems.length

theorem feed_ok (a : Allocator) (h : r.Ok) (b : Bytes) : (r.feed a b).Ok := by
  unfold feed Ok
  rw [Growth.Buf.append_elems, List.length_append]
  split_ifs
  · exact Nat.zero_le _
  · exact Nat.le_add_right_of_le h

/-- A piece is added behind the window, wherever that lies now. -/
theorem window_feed (a : Allocator) (h : r.Ok) (b : Bytes) :
    (r.feed a b).window = r.window ++ b := by
  unfold feed window
  rw [Growth.Buf.append_elems]
  split_ifs
  · rfl
  · exact List.drop_append_of_le_length h

@[simp] theorem maxLen_feed (a : Allocator) (r : FrameReader) (b : Bytes) :
    (r.feed a b).maxLen = r.maxLen := by
  unfold feed
  split_ifs <;> rfl

/-- What `ReadFrame` does about what stands at the front of the window. -/
def answer (r : FrameReader) : Front Frame Unit → FrameReader × Except ReadErr Frame
  | .item f n => ({ r with off := r.off + n }, .ok f)
  | .short => (r, .error .needMore)
  | .broken _ => (r, .error .tooLarge)

theorem readFrame_eq (r : FrameReader) : r.readFrame = r.answer ((wire r.maxLen).front r.window) := by
  show r.readFrame = r.answer (wireFront r.maxLen r.window)
  unfold readFrame wireFront
  cases parseFrameHeader r.window with
  | none => rfl
  | some h =>
    have hpayload : slice r.buf.elems (r.off + h.n) (r.off + (h.n + h.length)) =
        slice r.window h.n (h.n + h.length) := by
      rw [slice, slice, window, List.drop_drop]
      congr 1
      omega
    dsimp only
    rw [hpayload]
    by_cases hover : overLimit r.maxLen h.length
    · rw [if_pos hover]
      exact if_pos hover
    · refine (if_neg hover).trans ?_
      split_ifs <;> rfl

/-- Past a frame, the window starts behind it. -/
theorem window_skip {f : Frame} {n : ℕ} (h : (wire r.maxLen).front r.window = .item f n) :
    ({ r with off := r.off + n } : FrameReader).window = r.window.drop n ∧
      ({ r with off := r.off + n } : FrameReader).Ok := by
  have hle := (wire r.maxLen).size_le h
  have hpos := (wire r.maxLen).size_pos h
  refine ⟨(List.drop_drop).symm, ?_⟩
  rw [window, List.length_drop] at hle
  show r.off + n ≤ r.buf.elems.length
  omega

end FrameReader

end Http3
