import PoseidonHttp.Quic.AckTracker
import PoseidonHttp.Quic.Varint

/-!
# ACK frames

`buildACK` writes the ranges of a tracker: the first one by its upper bound and its length, the
others by the gap to the range above and their length, all differences of 64-bit words.
`parseAck` reads the frame at the peer and hands it to `OnAck` and `OnAckRange`, which turn the
differences back into packet numbers. `parseAck_buildACK`: the peer is handed the ranges of the
tracker, one for one.
-/

namespace Quic

open Header (Bytes)

/-- A difference of 64-bit words. -/
def sub64 (a b : ℕ) : ℕ := (a + (u64 - b % u64)) % u64

theorem sub64_of_le {a b : ℕ} (h : b ≤ a) (ha : a < u64) : sub64 a b = a - b := by
  have hb : b % u64 = b := Nat.mod_eq_of_lt (by omega)
  rw [sub64, hb, show a + (u64 - b) = a - b + u64 by omega, Nat.add_mod_right]
  exact Nat.mod_eq_of_lt (by omega)

structure AckRange where
  gap : ℕ
  length : ℕ
  deriving DecidableEq, Repr

/-- The bytes `AppendAck` appends. -/
def appendAck (largestAcked ackDelay firstAckRange : ℕ) (ranges : List AckRange) : Bytes :=
  0x02 :: (appendV largestAcked ++ appendV ackDelay ++ appendV ranges.length ++
    appendV firstAckRange ++ ranges.flatMap fun r => appendV r.gap ++ appendV r.length)

/-- The loop of `buildACK`, from the range above on. -/
def extraRanges : PnRange → List PnRange → List AckRange
  | _, [] => []
  | prev, cur :: rest =>
    ⟨sub64 (sub64 prev.lo cur.hi) 2, sub64 cur.hi cur.lo⟩ :: extraRanges cur rest

/-- The bytes `buildACK` appends. -/
def AckTracker.buildACK (a : AckTracker) (ackDelay : ℕ) : Bytes :=
  match a.ranges with
  | [] => []
  | first :: rest =>
    appendAck first.hi ackDelay (sub64 first.hi first.lo) (extraRanges first rest)

/-! ## At the peer -/

/-- The calls `parseAck` makes; a call returns the handler's state and an error. -/
structure AckHandler (σ : Type) where
  onAck : σ → (largest delay firstRange : ℕ) → σ × Option Error
  onAckRange : σ → (gap length : ℕ) → σ × Option Error
  onAckECN : σ → (ect0 ect1 ce : ℕ) → σ × Option Error

variable {σ : Type}

/-- The loop over the ACK Range section: the handler's state, and the bytes after it. -/
def parseAckRanges (h : AckHandler σ) : ℕ → σ → Bytes → σ × Except Error Bytes
  | 0, s, src => (s, .ok src)
  | count + 1, s, src =>
    match readV src with
    | none => (s, .error .frameEncoding)
    | some (gap, src) =>
      match readV src with
      | none => (s, .error .frameEncoding)
      | some (length, src) =>
        match h.onAckRange s gap length with
        | (s, some e) => (s, .error e)
        | (s, none) => parseAckRanges h count s src

/-- The ECN counts at the end of a frame of the second type. -/
def parseAckECN (h : AckHandler σ) (s : σ) (src : Bytes) : σ × Except Error Bytes :=
  match readV src with
  | none => (s, .error .frameEncoding)
  | some (ect0, src) =>
    match readV src with
    | none => (s, .error .frameEncoding)
    | some (ect1, src) =>
      match readV src with
      | none => (s, .error .frameEncoding)
      | some (ce, src) =>
        match h.onAckECN s ect0 ect1 ce with
        | (s, some e) => (s, .error e)
        | (s, none) => (s, .ok src)

/-- `parseAck`, on the bytes after the frame type. -/
def parseAck (h : AckHandler σ) (ecn : Bool) (s : σ) (src : Bytes) : σ × Except Error Bytes :=
  match readV src with
  | none => (s, .error .frameEncoding)
  | some (largest, src) =>
    match readV src with
    | none => (s, .error .frameEncoding)
    | some (delay, src) =>
      match readV src with
      | none => (s, .error .frameEncoding)
      | some (rangeCount, src) =>
        match readV src with
        | none => (s, .error .frameEncoding)
        | some (firstRange, src) =>
          match h.onAck s largest delay firstRange with
          | (s, some e) => (s, .error e)
          | (s, none) =>
            match parseAckRanges h rangeCount s src with
            | (s, .error e) => (s, .error e)
            | (s, .ok src) => if ecn then parseAckECN h s src else (s, .ok src)

/-- What `OnAck` and `OnAckRange` read and change: the next packet number to send, the lower
end of the range decoded last, and the ranges handed to `onAckRange`. -/
structure AckReader where
  sendPN : ℕ
  ackLow : ℕ
  acked : List PnRange
  deriving DecidableEq, Repr

/-- The connection's handler. The decoded delay goes to the RTT estimate only. -/
def connAckHandler : AckHandler AckReader where
  onAck s largest _ firstRange :=
    if firstRange > largest then (s, some .frameEncoding)
    else if largest ≥ s.sendPN then (s, some .protocolViolation)
    else
      let low := largest - firstRange
      ({ s with acked := s.acked ++ [⟨low, largest⟩], ackLow := low }, none)
  onAckRange s gap length :=
    if gap + 2 > s.ackLow then (s, some .frameEncoding)
    else
      let high := s.ackLow - gap - 2
      if length > high then (s, some .frameEncoding)
      else
        let low := high - length
        ({ s with acked := s.acked ++ [⟨low, high⟩], ackLow := low }, none)
  onAckECN s _ _ _ := (s, none)

/-! ## The peer is handed the ranges -/

/-- Every range ends at a number a varint can hold. -/
def Encodable (ranges : List PnRange) : Prop := ∀ r ∈ ranges, r.hi ≤ maxVarint

/-- The additional ranges below `prev`, read back. -/
theorem parseAckRanges_extraRanges {prev : PnRange} {ranges : List PnRange}
    (h : Canonical (prev :: ranges)) (henc : Encodable (prev :: ranges)) (s : AckReader)
    (hs : s.ackLow = prev.lo) (rest : Bytes) :
    ∃ low, parseAckRanges connAckHandler (extraRanges prev ranges).length s
      ((extraRanges prev ranges).flatMap (fun r => appendV r.gap ++ appendV r.length) ++ rest) =
        ({ s with acked := s.acked ++ ranges, ackLow := low }, .ok rest) := by
  induction ranges generalizing prev s with
  | nil => exact ⟨s.ackLow, by simp [extraRanges, parseAckRanges]⟩
  | cons cur ranges ih =>
    rcases canonical_cons.mp h with ⟨htail, hprev, hbelow⟩
    rcases canonical_cons.mp htail with ⟨-, hcur, -⟩
    have hgap : cur.hi + 1 < prev.lo := hbelow cur List.mem_cons_self
    have hmax : prev.hi ≤ maxVarint := henc prev List.mem_cons_self
    have hword : maxVarint < u64 := by decide
    -- none of the differences wraps: there is a number missing between the two ranges
    have hsub : sub64 (sub64 prev.lo cur.hi) 2 = prev.lo - cur.hi - 2 := by
      rw [sub64_of_le (b := cur.hi) (by omega) (by omega), sub64_of_le (by omega) (by omega)]
    have hlen : sub64 cur.hi cur.lo = cur.hi - cur.lo := sub64_of_le hcur (by omega)
    have henc' : Encodable (cur :: ranges) := fun r hr => henc r (List.mem_cons_of_mem prev hr)
    rcases ih htail henc' { s with acked := s.acked ++ [cur], ackLow := cur.lo } rfl with
      ⟨low, hih⟩
    refine ⟨low, ?_⟩
    have hhandler : connAckHandler.onAckRange s (prev.lo - cur.hi - 2) (cur.hi - cur.lo) =
        ({ s with acked := s.acked ++ [cur], ackLow := cur.lo }, none) := by
      have hhigh : prev.lo - (prev.lo - cur.hi - 2) - 2 = cur.hi := by omega
      have hlow : cur.hi - (cur.hi - cur.lo) = cur.lo := by omega
      simp only [connAckHandler, hs, hhigh, hlow]
      rw [if_neg (by omega), if_neg (by omega)]
    simp only [extraRanges, hsub, hlen, List.length_cons, List.flatMap_cons, List.append_assoc,
      parseAckRanges]
    rw [readV_appendV (by omega)]
    simp only
    rw [readV_appendV (by omega)]
    simp only [hhandler, hih, List.append_assoc, List.singleton_append]

/-- The frame a tracker builds, read by a peer that has sent every number in it. -/
theorem parseAck_buildACK {a : AckTracker} {first : PnRange} {ranges : List PnRange}
    (hranges : a.ranges = first :: ranges) (h : Canonical a.ranges) (henc : Encodable a.ranges)
    (hcount : a.ranges.length ≤ maxVarint) {ackDelay : ℕ} (hdelay : ackDelay ≤ maxVarint)
    (s : AckReader) (hsent : first.hi < s.sendPN) (rest : Bytes) :
    ∃ body low, a.buildACK ackDelay = 0x02 :: body ∧
      parseAck connAckHandler false s (body ++ rest) =
        ({ s with acked := s.acked ++ a.ranges, ackLow := low }, .ok rest) := by
  rw [hranges] at h henc hcount
  rcases canonical_cons.mp h with ⟨-, hfirst, -⟩
  have hmax : first.hi ≤ maxVarint := henc first List.mem_cons_self
  have hword : maxVarint < u64 := by decide
  have hsub : sub64 first.hi first.lo = first.hi - first.lo := sub64_of_le hfirst (by omega)
  have hlen : ∀ (prev : PnRange) l, (extraRanges prev l).length = l.length := by
    intro prev l
    induction l generalizing prev with
    | nil => rfl
    | cons cur l ih => rw [extraRanges, List.length_cons, List.length_cons, ih]
  rcases parseAckRanges_extraRanges h henc
    { s with acked := s.acked ++ [first], ackLow := first.lo } rfl rest with ⟨low, hloop⟩
  have hhandler : connAckHandler.onAck s first.hi ackDelay (first.hi - first.lo) =
      ({ s with acked := s.acked ++ [first], ackLow := first.lo }, none) := by
    have hlow : first.hi - (first.hi - first.lo) = first.lo := by omega
    simp only [connAckHandler, hlow]
    rw [if_neg (by omega), if_neg (by omega)]
  refine ⟨_, low, by rw [AckTracker.buildACK, hranges]; rfl, ?_⟩
  simp only [parseAck, hsub, List.append_assoc]
  rw [readV_appendV hmax]
  simp only
  rw [readV_appendV hdelay]
  simp only
  rw [readV_appendV (by rw [hlen]; rw [List.length_cons] at hcount; omega)]
  simp only
  rw [readV_appendV (by omega)]
  simp only [hhandler, hloop, hranges, Bool.false_eq_true, if_false, List.append_assoc,
    List.singleton_append]

end Quic
