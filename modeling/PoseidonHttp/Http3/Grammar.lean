import PoseidonHttp.Http3.Exchange

/-!
# The grammar of an HTTP/3 response

`Accepted` says what a response is, without reference to how its bytes arrive: complete frames, of
which those that count are interim sections, the final section, DATA and at most one trailer
section. What a section is, the client's own decoder says (`decodeResponseHeaders_eq_some` and
`decodeTrailers_eq_some` say what that accepts), as it says which responses have content: not those
to HEAD, and not 204 and 304. `roundTrip_exact`: this is what `roundTrip` accepts, and what it then
returns, whatever way the bytes arrive in; and where it fails, the error depends on the bytes alone.
-/

namespace Http3

open Header (Bytes Field ascii)
open Framing (Format Parse)
open Growth (Allocator Buf)
open Slice

/-! ## Frames -/

/-- A string that is a sequence of complete frames. -/
inductive IsFrames : Bytes → List Frame → Prop
  | nil : IsFrames [] []
  | cons {s rest payload : Bytes} {typ n : ℕ} {fs : List Frame}
      (hheader : parseFrameHeader s = some ⟨typ, payload.length, n⟩)
      (hs : s.drop n = payload ++ rest) (hrest : IsFrames rest fs) :
      IsFrames s (⟨typ, payload⟩ :: fs)

theorem parse_eq_of_isFrames {cap : ℕ} {s : Bytes} {fs : List Frame} (h : IsFrames s fs)
    (hcap : ∀ f ∈ fs, f.payload.length ≤ cap) : (wire cap).parse s = ⟨fs, none, []⟩ := by
  induction h with
  | nil => exact Format.parse_short rfl
  | @cons s rest payload typ n fs hheader hs hrest ih =>
    have hlen : s.length - n = payload.length + rest.length := by
      rw [← List.length_drop, hs, List.length_append]
    have hover : ¬ overLimit cap payload.length := by
      intro hover
      exact Nat.not_lt.mpr (hcap _ List.mem_cons_self) hover.2
    have hpayload : slice s n (n + payload.length) = payload := by
      rw [slice, hs, Nat.add_sub_cancel_left, List.take_left]
    have hfront : (wire cap).front s = .item ⟨typ, payload⟩ (n + payload.length) := by
      show wireFront cap s = _
      rw [wireFront, hheader]
      dsimp only
      rw [if_neg hover, if_neg (by omega), hpayload]
    have hdrop : s.drop (n + payload.length) = rest := by
      rw [← List.drop_drop, hs, List.drop_left]
    rw [Format.parse_item hfront, hdrop, ih fun f hf => hcap f (List.mem_cons_of_mem _ hf)]
    rfl

theorem isFrames_of_parse {cap : ℕ} (hpos : cap ≠ 0) {s : Bytes}
    (hfault : ((wire cap).parse s).fault = none) (hrest : ((wire cap).parse s).rest = []) :
    IsFrames s ((wire cap).parse s).items ∧
      ∀ f ∈ ((wire cap).parse s).items, f.payload.length ≤ cap := by
  induction s using (wire cap).parse_induction with
  | @item s f n hfront ih =>
    obtain ⟨hd, hheader, hover, hle, rfl, rfl⟩ := wireFront_eq_item hfront
    rw [Format.parse_item hfront] at hfault hrest ⊢
    obtain ⟨hframes, hcap⟩ := ih hfault hrest
    have hlength : (slice s hd.n (hd.n + hd.length)).length = hd.length := by
      rw [slice, List.length_take, List.length_drop]
      omega
    refine ⟨.cons (by rw [hlength]; exact hheader) ?_ hframes, ?_⟩
    · rw [slice, Nat.add_sub_cancel_left, ← List.drop_drop, List.take_append_drop]
    · rw [Parse.prepend_items, List.singleton_append, List.forall_mem_cons]
      refine ⟨?_, hcap⟩
      rw [hlength]
      unfold overLimit at hover
      omega
  | @short s hfront =>
    rw [Format.parse_short hfront] at hrest
    obtain rfl : s = [] := hrest
    refine ⟨.nil, ?_⟩
    intro f hf
    cases hf
  | broken hfront =>
    rw [Format.parse_broken hfront] at hfault
    cases hfault

theorem responseByteCap_ne_zero (c : Client) : c.responseByteCap ≠ 0 := by
  unfold Client.responseByteCap
  split_ifs with h
  · decide
  · exact h

/-! ## Content-Length -/

/-- Where the response can have content, every Content-Length is the length of the body. -/
def LengthDeclared (status : ℕ) (headers : List Field) (method : Bytes) (bodyLen : ℕ) : Prop :=
  canHaveContent status method = true →
    ∀ f ∈ headers, f.name = ascii "content-length" → parseDecimal f.value = some bodyLen

theorem contentLengthFrom_iff (headers : List Field) (n bodyLen : ℕ) (present : Bool) :
    ((contentLengthFrom n present headers).2.1 = true →
        (contentLengthFrom n present headers).2.2 = true ∧
          (contentLengthFrom n present headers).1 = bodyLen) ↔
      (present = true → n = bodyLen) ∧
        ∀ f ∈ headers, f.name = ascii "content-length" → parseDecimal f.value = some bodyLen := by
  induction headers generalizing n present with
  | nil => cases present <;> simp [contentLengthFrom]
  | cons f fs ih =>
    rw [contentLengthFrom, List.forall_mem_cons]
    by_cases hname : f.name = ascii "content-length"
    · rw [if_neg (not_not.mpr hname)]
      cases hv : parseDecimal f.value with
      | none => simp [hname]
      | some v =>
        dsimp only
        split_ifs with hclash
        · obtain ⟨hpresent, hne⟩ := hclash
          simp only [hname, hpresent, true_imp_iff, Option.some.injEq, false_and, false_iff,
            not_and]
          intro hn hvlen
          exact absurd (hvlen.trans hn.symm) hne
        · rw [ih]
          simp only [hname, true_imp_iff, Option.some.injEq]
          constructor
          · rintro ⟨rfl, hall⟩
            refine ⟨?_, rfl, hall⟩
            intro hpresent
            exact (not_not.mp fun hne => hclash ⟨hpresent, fun h => hne h.symm⟩)
          · rintro ⟨-, hv, hall⟩
            exact ⟨hv, hall⟩
    · rw [if_pos hname, ih]
      simp [hname]

theorem contentLengthMatches_iff {resp : Response} {method : Bytes} {bodyLen : ℕ} :
    contentLengthMatches resp method bodyLen = true ↔
      LengthDeclared resp.status resp.headers method bodyLen := by
  unfold contentLengthMatches LengthDeclared
  cases canHaveContent resp.status method with
  | false => simp
  | true =>
    have hiff : ((responseContentLength resp.headers).2.1 = true →
        (responseContentLength resp.headers).2.2 = true ∧
          (responseContentLength resp.headers).1 = bodyLen) ↔ _ :=
      contentLengthFrom_iff resp.headers 0 bodyLen false
    simp only [Bool.false_eq_true, false_imp_iff, true_and] at hiff
    rw [← hiff]
    rcases responseContentLength resp.headers with ⟨n, present, valid⟩
    cases present <;> simp

/-! ## What a frame does to the response -/

/-- A client whose QPACK is a fixed function that never waits. -/
def Client.fixed (maxResponseBytes : ℕ) (qpack : Bytes → Option (List Field)) (ric : Bytes → ℕ) :
    Client where
  maxResponseBytes := maxResponseBytes
  decode := fun _ payload =>
    { fields := (qpack payload).elim (.error .decompressionFailed) .ok, ric := ric payload }

open Http3.Client (fixed)

namespace Progress

variable (cap : ℕ) (qpack : Bytes → Option (List Field))

/-- A section before the final response. -/
def takeResponse (m : Progress) (fields : List Field) : Except Err Progress :=
  match decodeResponseHeaders fields with
  | none => .error .message
  | some h =>
    if 200 ≤ h.status then .ok { m with resp := some { status := h.status, headers := h.headers } }
    else if maxInterimResponses ≤ m.interim.length then .error .responseTooLarge
    else .ok { m with interim := m.interim ++ [h] }

/-- A section after it. -/
def takeTrailers (m : Progress) (r : Response) (fields : List Field) : Except Err Progress :=
  match decodeTrailers fields with
  | none => .error .message
  | some trailers => .ok { m with resp := some { r with trailers }, trailersSeen := true }

/-- A section that may stand where it does. -/
def takeSection (m : Progress) (payload : Bytes) : Except Err Progress :=
  match qpack payload with
  | none => .error (.conn h3QpackDecompressionFailed)
  | some fields =>
    match m.resp with
    | none => m.takeResponse fields
    | some r => m.takeTrailers r fields

/-- One frame, on the buffered path. -/
def take (m : Progress) (f : Frame) : Except Err Progress :=
  match f.kind with
  | .ignored => .ok m
  | .refused code => .error (.conn code)
  | .headers =>
    if m.trailersSeen then .error (.conn h3FrameUnexpected)
    else if cap < m.total + f.payload.length then .error .responseTooLarge
    else { m with total := m.total + f.payload.length }.takeSection qpack f.payload
  | .data =>
    if m.resp.isNone ∨ m.trailersSeen then .error (.conn h3FrameUnexpected)
    else if cap < m.total + f.payload.length then .error .responseTooLarge
    else .ok { m with total := m.total + f.payload.length, body := m.body ++ f.payload }

/-- Frames one after the other. -/
def takeAll (m : Progress) (fs : List Frame) : Except Err Progress := fs.foldlM (take cap qpack) m

end Progress

/-- What is left of a step when only the response is looked at. -/
def settled : RespBuilder × Option Err → Except Err Progress
  | (rb, none) => .ok rb.toProgress
  | (_, some e) => .error e

section Take

variable {maxResponseBytes : ℕ} {qpack : Bytes → Option (List Field)} {ric : Bytes → ℕ}

theorem toProgress_ackDynamicSection (rb : RespBuilder) (n : ℕ) :
    (rb.ackDynamicSection n).toProgress = rb.toProgress := by
  unfold RespBuilder.ackDynamicSection
  split_ifs <;> rfl

theorem settled_onResponse (rb : RespBuilder) (fields : List Field) (n : ℕ) :
    settled (rb.onResponse ⟨.ok fields, n⟩) = rb.toProgress.takeResponse fields := by
  unfold RespBuilder.onResponse Progress.takeResponse
  rw [← toProgress_ackDynamicSection rb n]
  dsimp only
  cases decodeResponseHeaders fields with
  | none => rfl
  | some h =>
    dsimp only
    by_cases hfinal : 200 ≤ h.status
    · rw [if_neg (Nat.not_lt.mpr hfinal), if_pos hfinal]
      rfl
    · rw [if_pos (Nat.not_le.mp hfinal)]
      split_ifs <;> rfl

theorem settled_onTrailers (rb : RespBuilder) (r : Response) (fields : List Field) (n : ℕ) :
    settled (rb.onTrailers r ⟨.ok fields, n⟩) = rb.toProgress.takeTrailers r fields := by
  unfold RespBuilder.onTrailers Progress.takeTrailers
  rw [← toProgress_ackDynamicSection rb n]
  dsimp only
  cases decodeTrailers fields <;> rfl

theorem settled_onHeaders (rb : RespBuilder) {f : Frame} (h : f.kind = .headers) :
    settled (rb.onHeaders (fixed maxResponseBytes qpack ric) f.payload) =
      rb.toProgress.take (fixed maxResponseBytes qpack ric).responseByteCap qpack f := by
  unfold RespBuilder.onHeaders Progress.take
  rw [h]
  dsimp only
  cases rb.trailersSeen with
  | true => rfl
  | false =>
    rw [if_neg Bool.false_ne_true, if_neg Bool.false_ne_true]
    split_ifs
    · rfl
    unfold Progress.takeSection
    dsimp only [fixed]
    cases hq : qpack f.payload with
    | none => cases rb.resp <;> rfl
    | some fields =>
      cases hr : rb.resp with
      | none => exact settled_onResponse _ _ _
      | some r => exact settled_onTrailers _ _ _ _

/-- The frames of an exchange act on the response as `take` says. -/
theorem take_eq (maxResponseBytes : ℕ) (qpack : Bytes → Option (List Field)) (ric : Bytes → ℕ)
    (rb : RespBuilder) (f : Frame) :
    rb.toProgress.take (fixed maxResponseBytes qpack ric).responseByteCap qpack f =
      match (fixed maxResponseBytes qpack ric).dispatchFrame false rb f with
      | (rb, .ok _) => .ok rb.toProgress
      | (_, .error e) => .error e := by
  unfold Client.dispatchFrame
  cases hkind : f.kind with
  | headers =>
    rw [← settled_onHeaders rb hkind]
    rcases rb.onHeaders (fixed maxResponseBytes qpack ric) f.payload with ⟨rb', _ | e⟩ <;> rfl
  | data =>
    unfold Progress.take RespBuilder.onDataFrame
    rw [hkind]
    dsimp only
    split_ifs <;> first | rfl | contradiction
  | refused code | ignored => rw [Progress.take, hkind]

theorem takeAll_eq (maxResponseBytes : ℕ) (qpack : Bytes → Option (List Field)) (ric : Bytes → ℕ)
    (rb : RespBuilder) (fs : List Frame) :
    rb.toProgress.takeAll (fixed maxResponseBytes qpack ric).responseByteCap qpack fs =
      settled ((fixed maxResponseBytes qpack ric).dispatchAll rb fs) := by
  induction fs generalizing rb with
  | nil => rfl
  | cons f fs ih =>
    rw [Progress.takeAll, List.foldlM_cons, take_eq maxResponseBytes qpack ric, Client.dispatchAll]
    rcases (fixed maxResponseBytes qpack ric).dispatchFrame false rb f with ⟨rb', e | d⟩
    · rfl
    · exact ih rb'

end Take

/-! ## The grammar -/

/-- HEADERS and DATA frames, which make the message. -/
def Frame.counts (f : Frame) : Bool := f.kind == .headers || f.kind == .data

def messageFrames (fs : List Frame) : List Frame := fs.filter Frame.counts

/-- No frame of a type that is forbidden on a request stream. -/
def Allowed (fs : List Frame) : Prop := ∀ f ∈ fs, ∀ code, f.kind ≠ .refused code

def payloadSize (fs : List Frame) : ℕ := (fs.map fun f => f.payload.length).sum

def payloads (fs : List Frame) : Bytes := fs.flatMap Frame.payload

/-- A HEADERS frame with a response section. -/
def IsResponse (qpack : Bytes → Option (List Field)) (f : Frame) (h : Head) : Prop :=
  f.kind = .headers ∧ (qpack f.payload).bind decodeResponseHeaders = some h

/-- At most one trailer section. -/
def IsTrailer (qpack : Bytes → Option (List Field)) (fs : List Frame) (trailers : List Field) : Prop :=
  fs = [] ∧ trailers = [] ∨
    ∃ f, fs = [f] ∧ f.kind = .headers ∧ (qpack f.payload).bind decodeTrailers = some trailers

/-- The frames of a message: interim sections, the final section, DATA, a trailer section. -/
structure IsMessage (cap : ℕ) (qpack : Bytes → Option (List Field)) (fs : List Frame) (r : Response)
    (body : Bytes) : Prop where
  shape : ∃ interims final data trailer, fs = interims ++ final :: (data ++ trailer) ∧
    List.Forall₂ (IsResponse qpack) interims r.interim ∧
    IsResponse qpack final ⟨r.status, r.headers⟩ ∧ (∀ f ∈ data, f.kind = .data) ∧
    body = payloads data ∧ IsTrailer qpack trailer r.trailers
  interim_lt : ∀ h ∈ r.interim, h.status < 200
  interim_le : r.interim.length ≤ maxInterimResponses
  final_ge : 200 ≤ r.status
  final_le : r.status ≤ 599
  size_le : payloadSize fs ≤ cap

section Take

variable {cap : ℕ} {qpack : Bytes → Option (List Field)} {m m' : Progress} {f : Frame}
  {fs : List Frame} {r : Response}

theorem IsResponse.status_le {h : Head} (hf : IsResponse qpack f h) : h.status ≤ 599 := by
  obtain ⟨fields, -, hfields⟩ := Option.bind_eq_some_iff.mp hf.2
  exact (status_of_decodeResponseHeaders hfields).2

theorem takeAll_append_eq_ok {gs : List Frame} :
    m.takeAll cap qpack (fs ++ gs) = .ok m' ↔
      ∃ m₁, m.takeAll cap qpack fs = .ok m₁ ∧ m₁.takeAll cap qpack gs = .ok m' := by
  rw [Progress.takeAll, List.foldlM_append, Progress.takeAll]
  cases hf : fs.foldlM (Progress.take cap qpack) m with
  | error e => exact ⟨nofun, fun ⟨_, h, _⟩ => nomatch h⟩
  | ok m₁ =>
    constructor
    · intro h
      exact ⟨m₁, rfl, h⟩
    · rintro ⟨m₂, h, hrest⟩
      obtain rfl := Except.ok.inj h
      exact hrest

theorem takeAll_singleton : m.takeAll cap qpack [f] = m.take cap qpack f := bind_pure _

theorem takeAll_cons_eq_ok :
    m.takeAll cap qpack (f :: fs) = .ok m' ↔
      ∃ m₁, m.take cap qpack f = .ok m₁ ∧ m₁.takeAll cap qpack fs = .ok m' := by
  rw [← List.singleton_append, takeAll_append_eq_ok, takeAll_singleton]

theorem payloadSize_cons (f : Frame) (fs : List Frame) :
    payloadSize (f :: fs) = f.payload.length + payloadSize fs := by
  rw [payloadSize, List.map_cons, List.sum_cons, payloadSize]

theorem payloadSize_append (fs gs : List Frame) :
    payloadSize (fs ++ gs) = payloadSize fs + payloadSize gs := by
  rw [payloadSize, List.map_append, List.sum_append, payloadSize, payloadSize]

/-- Unknown frames are skipped, forbidden ones end it. -/
theorem takeAll_eq_ok :
    m.takeAll cap qpack fs = .ok m' ↔
      Allowed fs ∧ m.takeAll cap qpack (messageFrames fs) = .ok m' := by
  induction fs generalizing m with
  | nil => exact (and_iff_right nofun).symm
  | cons f fs ih =>
    have hallowed : Allowed (f :: fs) ↔ (∀ code, f.kind ≠ .refused code) ∧ Allowed fs :=
      List.forall_mem_cons
    have hcounts (h : f.counts = true) (hkind : ∀ code, f.kind ≠ .refused code) :
        m.takeAll cap qpack (f :: fs) = .ok m' ↔
          Allowed (f :: fs) ∧ m.takeAll cap qpack (messageFrames (f :: fs)) = .ok m' := by
      rw [hallowed, messageFrames, List.filter_cons_of_pos h, takeAll_cons_eq_ok, takeAll_cons_eq_ok]
      simp only [ih, messageFrames]
      constructor
      · rintro ⟨m₁, htake, hall, hrest⟩
        exact ⟨⟨hkind, hall⟩, m₁, htake, hrest⟩
      · rintro ⟨⟨-, hall⟩, m₁, htake, hrest⟩
        exact ⟨m₁, htake, hall, hrest⟩
    cases hkind : f.kind with
    | headers | data => exact hcounts (by simp [Frame.counts, hkind]) (by simp [hkind])
    | refused code =>
      rw [takeAll_cons_eq_ok, hallowed, Progress.take, hkind]
      constructor
      · rintro ⟨m₁, h, -⟩
        cases h
      · rintro ⟨⟨h, -⟩, -⟩
        exact absurd rfl (h code)
    | ignored =>
      have hskip : messageFrames (f :: fs) = messageFrames fs :=
        List.filter_cons_of_neg (by simp [Frame.counts, hkind])
      rw [takeAll_cons_eq_ok, hallowed, hskip, Progress.take, hkind]
      constructor
      · rintro ⟨m₁, h, hrest⟩
        obtain rfl := Except.ok.inj h
        obtain ⟨hall, hrest⟩ := ih.mp hrest
        exact ⟨⟨nofun, hall⟩, hrest⟩
      · rintro ⟨⟨-, hall⟩, hrest⟩
        exact ⟨m, rfl, ih.mpr ⟨hall, hrest⟩⟩

theorem take_data_eq_ok (hkind : f.kind = .data) :
    m.take cap qpack f = .ok m' ↔ m.resp.isSome = true ∧ m.trailersSeen = false ∧
      m.total + f.payload.length ≤ cap ∧
      m' = { m with total := m.total + f.payload.length, body := m.body ++ f.payload } := by
  rw [Progress.take, hkind]
  dsimp only
  by_cases hplace : m.resp.isNone = true ∨ m.trailersSeen = true
  · rw [if_pos hplace]
    constructor
    · exact nofun
    · rintro ⟨hresp, hseen, -⟩
      rcases hplace with h | h
      · simp [Option.isNone_iff_eq_none.mp h] at hresp
      · rw [hseen] at h
        cases h
  · rw [if_neg hplace]
    rw [not_or, Option.isNone_iff_eq_none, Bool.not_eq_true] at hplace
    rw [Option.isSome_iff_ne_none]
    split_ifs with hcap
    · exact ⟨nofun, fun h => absurd h.2.2.1 (Nat.not_le.mpr hcap)⟩
    · rw [Except.ok.injEq]
      exact ⟨fun h => ⟨hplace.1, hplace.2, Nat.not_lt.mp hcap, h.symm⟩, fun h => h.2.2.2.symm⟩

theorem take_headers_eq_ok (hkind : f.kind = .headers) :
    m.take cap qpack f = .ok m' ↔ m.trailersSeen = false ∧ m.total + f.payload.length ≤ cap ∧
      { m with total := m.total + f.payload.length }.takeSection qpack f.payload = .ok m' := by
  rw [Progress.take, hkind]
  dsimp only
  cases m.trailersSeen with
  | true => simp
  | false =>
    rw [if_neg Bool.false_ne_true]
    split_ifs with hcap
    · exact ⟨nofun, fun h => absurd h.2.1 (Nat.not_le.mpr hcap)⟩
    · exact ⟨fun h => ⟨rfl, Nat.not_lt.mp hcap, h⟩, fun h => h.2.2⟩

/-- A section after the final response. -/
theorem takeSection_trailers (hr : m.resp = some r) {payload : Bytes} :
    m.takeSection qpack payload = .ok m' ↔
      ∃ trailers, (qpack payload).bind decodeTrailers = some trailers ∧
        m' = { m with resp := some { r with trailers }, trailersSeen := true } := by
  rw [Progress.takeSection, hr]
  cases hq : qpack payload with
  | none => simp
  | some fields =>
    dsimp only [Option.bind_some]
    rw [Progress.takeTrailers]
    cases decodeTrailers fields with
    | none => simp
    | some trailers => simp [eq_comm]

/-- A section before it. -/
theorem takeSection_response (hr : m.resp = none) {payload : Bytes} :
    m.takeSection qpack payload = .ok m' ↔
      ∃ h, (qpack payload).bind decodeResponseHeaders = some h ∧
        (200 ≤ h.status ∧ m' = { m with resp := some { status := h.status, headers := h.headers } } ∨
          h.status < 200 ∧ m.interim.length < maxInterimResponses ∧
            m' = { m with interim := m.interim ++ [h] }) := by
  rw [Progress.takeSection, hr]
  cases hq : qpack payload with
  | none => simp
  | some fields =>
    dsimp only [Option.bind_some]
    rw [Progress.takeResponse]
    cases decodeResponseHeaders fields with
    | none => simp
    | some h =>
      dsimp only
      by_cases hfinal : 200 ≤ h.status
      · simp [hfinal, Nat.not_lt.mpr hfinal, eq_comm]
      · split_ifs with hmany
        · simp [hfinal, Nat.not_lt.mpr hmany]
        · simp [hfinal, Nat.not_le.mp hfinal, Nat.not_le.mp hmany, hr, eq_comm]

theorem counts_iff : f.counts = true ↔ f.kind = .headers ∨ f.kind = .data := by
  simp [Frame.counts]

/-- Nothing that counts may follow the trailers. -/
theorem takeAll_closed (hseen : m.trailersSeen = true) (hcounts : ∀ f ∈ fs, f.counts = true) :
    m.takeAll cap qpack fs = .ok m' ↔ fs = [] ∧ m' = m := by
  cases fs with
  | nil =>
    constructor
    · intro h
      exact ⟨rfl, (Except.ok.inj h).symm⟩
    · rintro ⟨-, rfl⟩
      rfl
  | cons f fs =>
    rw [takeAll_cons_eq_ok]
    constructor
    · rintro ⟨m₁, htake, -⟩
      rcases counts_iff.mp (hcounts f List.mem_cons_self) with hkind | hkind
      · rw [((take_headers_eq_ok hkind).mp htake).1] at hseen
        cases hseen
      · rw [((take_data_eq_ok hkind).mp htake).2.1] at hseen
        cases hseen
    · rintro ⟨h, -⟩
      cases h

/-- How far the frames have brought the response: there are interim sections only, or the final one
and what follows it. -/
inductive Stage (qpack : Bytes → Option (List Field)) : List Frame → Progress → Prop
  | before {fs : List Frame} {heads : List Head} {total : ℕ}
      (hall : List.Forall₂ (IsResponse qpack) fs heads) (hlow : ∀ h ∈ heads, h.status < 200)
      (hcount : heads.length ≤ maxInterimResponses) :
      Stage qpack fs { interim := heads, total }
  | behind {interims data trailer : List Frame} {heads : List Head} {final : Frame} {h : Head}
      {trailers : List Field} {total : ℕ} (hall : List.Forall₂ (IsResponse qpack) interims heads)
      (hlow : ∀ h ∈ heads, h.status < 200) (hcount : heads.length ≤ maxInterimResponses)
      (hfinal : IsResponse qpack final h) (hge : 200 ≤ h.status) (hdata : ∀ f ∈ data, f.kind = .data)
      (htrailer : IsTrailer qpack trailer trailers) :
      Stage qpack (interims ++ final :: (data ++ trailer))
        { interim := heads, total, body := payloads data, trailersSeen := !trailer.isEmpty
          resp := some { status := h.status, headers := h.headers, trailers } }

/-- Nothing follows the trailers. -/
theorem IsTrailer.eq_nil {trailer : List Frame} {trailers : List Field}
    (h : IsTrailer qpack trailer trailers) (hseen : (!trailer.isEmpty) = false) :
    trailer = [] ∧ trailers = [] := by
  rcases h with h | ⟨f, rfl, -⟩
  · exact h
  · cases hseen

theorem Stage.take (hs : Stage qpack fs m) (hcounts : f.counts = true)
    (htake : m.take cap qpack f = .ok m') :
    Stage qpack (fs ++ [f]) m' ∧ m'.total = m.total + f.payload.length ∧ m'.total ≤ cap := by
  rcases counts_iff.mp hcounts with hkind | hkind
  · obtain ⟨hseen, hcap, hsection⟩ := (take_headers_eq_ok hkind).mp htake
    cases hs with
    | before hall hlow hcount =>
      obtain ⟨h, hresponse, ⟨hge, rfl⟩ | ⟨hlt, hmore, rfl⟩⟩ := (takeSection_response rfl).mp hsection
      · exact ⟨.behind hall hlow hcount ⟨hkind, hresponse⟩ hge (List.forall_mem_nil _)
          (.inl ⟨rfl, rfl⟩), rfl, hcap⟩
      · refine ⟨.before (List.rel_append hall (.cons ⟨hkind, hresponse⟩ .nil)) ?_ ?_, rfl, hcap⟩
        · exact List.forall_mem_append.mpr ⟨hlow, List.forall_mem_singleton.mpr hlt⟩
        · rw [List.length_append]
          exact hmore
    | behind hall hlow hcount hfinal hge hdata htrailer =>
      obtain ⟨rfl, rfl⟩ := htrailer.eq_nil hseen
      obtain ⟨trailers, htrailers, rfl⟩ := (takeSection_trailers rfl).mp hsection
      rw [List.append_assoc, List.cons_append, List.append_assoc]
      exact ⟨.behind hall hlow hcount hfinal hge hdata (.inr ⟨f, rfl, hkind, htrailers⟩), rfl, hcap⟩
  · obtain ⟨hsome, hseen, hcap, rfl⟩ := (take_data_eq_ok hkind).mp htake
    cases hs with
    | before => cases hsome
    | @behind _ data _ _ _ _ _ _ hall hlow hcount hfinal hge hdata htrailer =>
      obtain ⟨rfl, rfl⟩ := htrailer.eq_nil hseen
      have hmore : ∀ g ∈ data ++ [f], g.kind = .data :=
        List.forall_mem_append.mpr ⟨hdata, List.forall_mem_singleton.mpr hkind⟩
      have hbody : payloads data ++ f.payload = payloads (data ++ [f]) := by simp [payloads]
      rw [List.append_nil, List.append_assoc, List.cons_append, ← List.append_nil (data ++ [f]), hbody]
      exact ⟨.behind hall hlow hcount hfinal hge hmore (.inl ⟨rfl, rfl⟩), rfl, hcap⟩

/-- What the frames read so far amount to. -/
theorem stage_takeAll (hcounts : ∀ f ∈ fs, f.counts = true)
    (hall : Progress.takeAll cap qpack {} fs = .ok m) :
    Stage qpack fs m ∧ m.total = payloadSize fs ∧ m.total ≤ cap := by
  induction fs using List.reverseRecOn generalizing m with
  | nil =>
    obtain rfl := Except.ok.inj hall
    exact ⟨.before .nil nofun (Nat.zero_le _), rfl, Nat.zero_le _⟩
  | append_singleton fs f ih =>
    obtain ⟨m₁, hbefore, hlast⟩ := takeAll_append_eq_ok.mp hall
    obtain ⟨hfs, hf⟩ := List.forall_mem_append.mp hcounts
    obtain ⟨hs, htotal, -⟩ := ih hfs hbefore
    rw [takeAll_singleton] at hlast
    obtain ⟨hs', htotal', hcap⟩ := hs.take (hf f List.mem_cons_self) hlast
    rw [htotal', htotal]
    exact ⟨hs', by simp [payloadSize], htotal ▸ htotal' ▸ hcap⟩

/-- Interim sections are read one after the other. -/
theorem takeAll_interims {heads : List Head} (hall : List.Forall₂ (IsResponse qpack) fs heads)
    (hlow : ∀ h ∈ heads, h.status < 200) (hseen : m.trailersSeen = false) (hr : m.resp = none)
    (hcount : m.interim.length + heads.length ≤ maxInterimResponses)
    (hsize : m.total + payloadSize fs ≤ cap) :
    m.takeAll cap qpack fs = .ok { m with
      interim := m.interim ++ heads
      total := m.total + payloadSize fs } := by
  induction hall generalizing m with
  | nil => simp [Progress.takeAll, payloadSize, pure, Except.pure]
  | @cons f h fs heads hfirst hall ih =>
    rw [payloadSize_cons] at hsize ⊢
    rw [List.length_cons] at hcount
    obtain ⟨hlt, hlow⟩ := List.forall_mem_cons.mp hlow
    refine takeAll_cons_eq_ok.mpr ⟨_, (take_headers_eq_ok hfirst.1).mpr ⟨hseen, by omega,
      (takeSection_response (by exact hr)).mpr ⟨h, hfirst.2, .inr ⟨hlt, ?_, rfl⟩⟩⟩, ?_⟩
    · show m.interim.length < _
      omega
    · refine (ih hlow (by exact hseen) (by exact hr) (by simp; omega) (by dsimp only; omega)).trans ?_
      simp [Nat.add_assoc]

/-- So are the DATA frames. -/
theorem takeAll_data (hdata : ∀ f ∈ fs, f.kind = .data) (hseen : m.trailersSeen = false)
    (hr : m.resp.isSome = true) (hsize : m.total + payloadSize fs ≤ cap) :
    m.takeAll cap qpack fs = .ok { m with
      body := m.body ++ payloads fs
      total := m.total + payloadSize fs } := by
  induction fs generalizing m with
  | nil => simp [Progress.takeAll, payloadSize, payloads, pure, Except.pure]
  | cons f fs ih =>
    rw [payloadSize_cons] at hsize ⊢
    obtain ⟨hkind, hdata⟩ := List.forall_mem_cons.mp hdata
    refine takeAll_cons_eq_ok.mpr ⟨_, (take_data_eq_ok hkind).mpr ⟨hr, hseen, by omega, rfl⟩, ?_⟩
    refine (ih hdata (by exact hseen) (by exact hr) (by dsimp only; omega)).trans ?_
    simp [payloads, Nat.add_assoc]

/-- And the trailers. -/
theorem takeAll_trailer {trailers : List Field} (htrailer : IsTrailer qpack fs trailers)
    (hseen : m.trailersSeen = false) (hr : m.resp = some r) (hnone : r.trailers = [])
    (hsize : m.total + payloadSize fs ≤ cap) :
    ∃ m', m.takeAll cap qpack fs = .ok m' ∧ m'.resp = some { r with trailers } ∧
      m'.interim = m.interim ∧ m'.body = m.body := by
  rcases htrailer with ⟨rfl, rfl⟩ | ⟨f, rfl, hkind, htrailers⟩
  · exact ⟨m, rfl, by rw [hr, ← hnone], rfl, rfl⟩
  · rw [takeAll_singleton]
    refine ⟨_, (take_headers_eq_ok hkind).mpr ⟨hseen, by simpa [payloadSize] using hsize,
      (takeSection_trailers (by exact hr)).mpr ⟨trailers, htrailers, rfl⟩⟩, rfl, rfl, rfl⟩

theorem finalizeResponse_eq_ok {method body : Bytes} :
    finalizeResponse m method = .ok (r, body) ↔ ∃ r₀, m.resp = some r₀ ∧
      contentLengthMatches r₀ method m.body.length = true ∧ r = { r₀ with interim := m.interim } ∧
      body = m.body := by
  unfold finalizeResponse
  cases m.resp with
  | none => simp
  | some r₀ =>
    dsimp only
    split_ifs with hlength
    · constructor
      · intro h
        obtain ⟨rfl, rfl⟩ := Prod.mk.inj (Except.ok.inj h)
        exact ⟨r₀, rfl, hlength, rfl, rfl⟩
      · rintro ⟨r₁, hr₁, -, rfl, rfl⟩
        obtain rfl := Option.some.inj hr₁
        rfl
    · constructor
      · exact nofun
      · rintro ⟨r₁, hr₁, h, -⟩
        obtain rfl := Option.some.inj hr₁
        exact absurd h hlength

/-- The frames that lead to a response are those of a message. -/
theorem takeAll_isMessage {method body : Bytes} :
    (∃ m', Progress.takeAll cap qpack {} fs = .ok m' ∧ finalizeResponse m' method = .ok (r, body)) ↔
      Allowed fs ∧ IsMessage cap qpack (messageFrames fs) r body ∧
        LengthDeclared r.status r.headers method body.length := by
  constructor
  · rintro ⟨m', hall, hfinal⟩
    obtain ⟨hallowed, hall⟩ := takeAll_eq_ok.mp hall
    obtain ⟨r₀, hr₀, hlength, rfl, rfl⟩ := finalizeResponse_eq_ok.mp hfinal
    have hcounts : ∀ f ∈ messageFrames fs, f.counts = true := fun f hf => (List.mem_filter.mp hf).2
    obtain ⟨hs, htotal, hcap⟩ := stage_takeAll hcounts hall
    rw [htotal] at hcap
    generalize messageFrames fs = gs at hs hcap ⊢
    cases hs with
    | before => cases hr₀
    | behind hinterims hlow hcount hlast hge hdata htrailer =>
      obtain rfl := Option.some.inj hr₀
      exact ⟨hallowed, ⟨⟨_, _, _, _, rfl, hinterims, hlast, hdata, rfl, htrailer⟩, hlow, hcount, hge,
        hlast.status_le, hcap⟩, contentLengthMatches_iff.mp hlength⟩
  · rintro ⟨hallowed, ⟨⟨interims, final, data, trailer, hfs, hinterims, hlast, hdata, rfl, htrailer⟩,
      hlow, hcount, hge, -, hsize⟩, hlength⟩
    rw [hfs, payloadSize_append, payloadSize_cons, payloadSize_append] at hsize
    -- one part of the message after the other
    let m₁ : Progress := { interim := r.interim, total := 0 + payloadSize interims }
    let m₂ : Progress :=
      { m₁ with
        resp := some { status := r.status, headers := r.headers }
        total := m₁.total + final.payload.length }
    let m₃ : Progress := { m₂ with body := payloads data, total := m₂.total + payloadSize data }
    have h₁ : Progress.takeAll cap qpack {} interims = .ok m₁ :=
      takeAll_interims hinterims hlow rfl rfl (by simpa using hcount) (by dsimp only; omega)
    have h₂ : m₁.take cap qpack final = .ok m₂ := by
      refine (take_headers_eq_ok hlast.1).mpr ⟨rfl, by dsimp only [m₁]; omega, ?_⟩
      exact (takeSection_response rfl).mpr ⟨_, hlast.2, .inl ⟨hge, rfl⟩⟩
    have h₃ : m₂.takeAll cap qpack data = .ok m₃ :=
      takeAll_data hdata rfl rfl (by dsimp only [m₁, m₂]; omega)
    have hleft : m₃.total + payloadSize trailer ≤ cap := by
      dsimp only [m₁, m₂, m₃]
      omega
    obtain ⟨m', h₄, hresp, hinterim, hbody⟩ := takeAll_trailer htrailer rfl rfl rfl hleft
    refine ⟨m', takeAll_eq_ok.mpr ⟨hallowed, ?_⟩, finalizeResponse_eq_ok.mpr ⟨_, hresp, ?_⟩⟩
    · rw [hfs, takeAll_append_eq_ok]
      exact ⟨m₁, h₁, takeAll_cons_eq_ok.mpr ⟨m₂, h₂, takeAll_append_eq_ok.mpr ⟨m₃, h₃, h₄⟩⟩⟩
    · rw [hbody, hinterim]
      exact ⟨contentLengthMatches_iff.mpr hlength, rfl, rfl⟩

end Take

/-! ## The exchange -/

/-- What the bytes of a whole stream amount to. -/
def outcome (c : Client) (method : Bytes) (s : Bytes) (ending : Ending) :
    Except Err (Response × Bytes) :=
  match conclude c {} s ending with
  | (_, .error e) => .error e
  | (rb, .ok ()) => finalizeResponse rb.toProgress method

/-- `roundTrip` gives what the bytes amount to, whatever way they arrive in. -/
theorem roundTrip_eq {a : Allocator} {c : Client} {capacity : ℕ} {method s : Bytes} {ps : List Poll}
    {ending : Ending} (h : Delivers ps s ending) :
    (roundTrip a c capacity method ps).2 = some (outcome c method s ending) := by
  have hreceive : receive a c ⟨Buf.make capacity, 0, c.responseByteCap⟩ {} ps =
      ((conclude c {} ([] ++ s) ending).1, some (conclude c {} ([] ++ s) ending).2) :=
    receive_eq (show FrameReader.Ok ⟨Buf.make capacity, 0, c.responseByteCap⟩ from Nat.le_refl 0) rfl {} h
  rw [List.nil_append] at hreceive
  rw [roundTrip, hreceive, outcome]
  rcases conclude c {} s ending with ⟨rb, e | u⟩
  · rfl
  · dsimp only
    cases finalizeResponse rb.toProgress method <;> rfl

variable {maxResponseBytes : ℕ} {qpack : Bytes → Option (List Field)} {ric : Bytes → ℕ}

/-- A response, as the client with these limits and this QPACK accepts it. -/
def Accepted (cap : ℕ) (qpack : Bytes → Option (List Field)) (method s : Bytes) (r : Response)
    (body : Bytes) : Prop :=
  ∃ fs, IsFrames s fs ∧ (∀ f ∈ fs, f.payload.length ≤ cap) ∧ Allowed fs ∧
    IsMessage cap qpack (messageFrames fs) r body ∧
    LengthDeclared r.status r.headers method body.length

theorem conclude_eq_ok {c : Client} {rb rb' : RespBuilder} {s : Bytes} :
    conclude c rb s .fin = (rb', .ok ()) ↔
      c.dispatchAll rb ((wire c.responseByteCap).parse s).items = (rb', none) ∧
        ((wire c.responseByteCap).parse s).fault = none ∧
        ((wire c.responseByteCap).parse s).rest = [] := by
  rcases hall : c.dispatchAll rb ((wire c.responseByteCap).parse s).items with ⟨rb₁, _ | e⟩
  · cases hfault : ((wire c.responseByteCap).parse s).fault with
    | some u =>
      rw [conclude, hall, hfault]
      simp
    | none =>
      rw [conclude_of_rest hall hfault, atEnd]
      by_cases hrest : ((wire c.responseByteCap).parse s).rest = []
      · simp [hrest, Except.map]
      · simp [hrest, List.length_pos_iff, Except.map]
  · rw [conclude, hall]
    simp

/-- What is accepted is a response by the grammar. -/
theorem outcome_eq_ok {method s body : Bytes} {r : Response} :
    outcome (fixed maxResponseBytes qpack ric) method s .fin = .ok (r, body) ↔
      Accepted (fixed maxResponseBytes qpack ric).responseByteCap qpack method s r body := by
  have hcap := responseByteCap_ne_zero (fixed maxResponseBytes qpack ric)
  constructor
  · intro h
    rw [outcome] at h
    rcases hconclude : conclude (fixed maxResponseBytes qpack ric) {} s .fin with ⟨rb, e | u⟩
    · rw [hconclude] at h
      cases h
    · rw [hconclude] at h
      obtain ⟨hall, hfault, hrest⟩ := conclude_eq_ok.mp hconclude
      obtain ⟨hframes, hle⟩ := isFrames_of_parse hcap hfault hrest
      have htake := takeAll_eq maxResponseBytes qpack ric {}
        ((wire (fixed maxResponseBytes qpack ric).responseByteCap).parse s).items
      rw [hall] at htake
      exact ⟨_, hframes, hle, takeAll_isMessage.mp ⟨_, htake, h⟩⟩
  · rintro ⟨fs, hframes, hle, hmessage⟩
    have hparse := parse_eq_of_isFrames hframes hle
    obtain ⟨m', htake, hfinal⟩ := takeAll_isMessage.mpr hmessage
    have hsettled := (takeAll_eq maxResponseBytes qpack ric {} fs).symm.trans htake
    rcases hall : (fixed maxResponseBytes qpack ric).dispatchAll {} fs with ⟨rb, _ | e⟩
    · rw [hall] at hsettled
      obtain rfl := Except.ok.inj hsettled
      have hconclude : conclude (fixed maxResponseBytes qpack ric) {} s .fin = (rb, .ok ()) :=
        conclude_eq_ok.mpr ⟨by rw [hparse]; exact hall, by rw [hparse], by rw [hparse]⟩
      rw [outcome, hconclude]
      exact hfinal
    · rw [hall] at hsettled
      cases hsettled

/-- One section, which stands for the status 200. -/
def okSection (payload : Bytes) : Option (List Field) :=
  if payload = [1] then some [⟨statusName, ascii "200", Header.indexIncremental⟩] else none

/-- Frames in sequence, as they are written. -/
def written (fs : List Frame) : Bytes := fs.flatMap fun f => appendFrame f.typ f.payload

theorem IsFrames.unique {s : Bytes} {fs fs' : List Frame} (h : IsFrames s fs)
    (h' : IsFrames s fs') : fs = fs' := by
  have hle : ∀ f ∈ fs ++ fs', f.payload.length ≤
      ((fs ++ fs').map fun f => f.payload.length).max?.getD 0 :=
    fun f hf => List.le_max?_getD_of_mem (List.mem_map_of_mem hf)
  rw [List.forall_mem_append] at hle
  have hparse := parse_eq_of_isFrames h hle.1
  rw [parse_eq_of_isFrames h' hle.2] at hparse
  exact (congrArg Parse.items hparse).symm

section

variable {fs : List Frame}
  (hfits : ∀ f ∈ fs, f.typ ≤ Quic.maxVarint ∧ f.payload.length ≤ Quic.maxVarint)

include hfits

theorem isFrames_written : IsFrames (written fs) fs := by
  induction fs with
  | nil => exact .nil
  | cons f fs ih =>
    rcases List.forall_mem_cons.mp hfits with ⟨⟨htyp, hlength⟩, hrest⟩
    rw [written, List.flatMap_cons, appendFrame, List.append_assoc]
    refine .cons (parseFrameHeader_written htyp hlength _) ?_ (ih hrest)
    rw [List.drop_left]
    rfl

/-- Frames that were written are received, however they are cut on the way, exactly when they are
a message. -/
theorem roundTrip_written {ps : List Poll} (h : Delivers ps (written fs) .fin) (a : Allocator)
    (capacity : ℕ) (method body : Bytes) (r : Response) :
    (roundTrip a (fixed maxResponseBytes qpack ric) capacity method ps).2 = some (.ok (r, body)) ↔
      (∀ f ∈ fs, f.payload.length ≤ (fixed maxResponseBytes qpack ric).responseByteCap) ∧
        Allowed fs ∧ IsMessage (fixed maxResponseBytes qpack ric).responseByteCap qpack
          (messageFrames fs) r body ∧
        LengthDeclared r.status r.headers method body.length := by
  have hframes := isFrames_written hfits
  rw [roundTrip_eq h, Option.some.injEq, outcome_eq_ok]
  constructor
  · rintro ⟨fs', hframes', hrest⟩
    rwa [hframes.unique hframes']
  · exact fun hrest => ⟨fs, hframes, hrest⟩

end

theorem roundTrip_written_split :
    IsMessage (fixed 0 okSection fun _ => 0).responseByteCap okSection [⟨1, [1]⟩, ⟨0, [5]⟩]
      ⟨200, [], [], []⟩ [5] := by
  have hps : Delivers [{ recv := [1, 1] }, { recv := [1, 0, 1, 5] }, { finished := true }]
      (written [⟨1, [1]⟩, ⟨0, [5]⟩]) .fin :=
    .more rfl rfl (.more rfl rfl (.last rfl))
  exact ((roundTrip_written (by decide) hps Growth.doubling 0 [] _ _).mp rfl).2.2.1

end Http3
