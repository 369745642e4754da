import PoseidonHttp.Conn.Delivery
import PoseidonHttp.Grpc.Metadata

/-!
# What the end of a call says

`Recv` returns `io.EOF` for a call that succeeded. The receiver has then consumed a part of what
arrived, and `Declared` says what that part must be for the server to have said so.

* `success_undeclared`: a response with `:status: abc` is taken for a success.
* `success_declared_iff`: a success is declared by the server exactly when its header block was
  delivered with a `:status` of three digits other than 000, which the HTTP/2 layer does not check.
-/

namespace Grpc

open Header (Bytes Field ascii)
open Conn (StreamEvent validateResponseFields)
open Conn.Handler (checked)
open Growth (Allocator)
open Receiver (lookMessage lookEnd finalStatus)

/-! ## What has arrived -/

namespace Incoming

/-- The bytes of a DATA event. -/
def payload : Incoming → Bytes
  | .event (.data payload _) _ => payload
  | _ => []

def header? : Incoming → Option (List Field)
  | .event (.headers fields _) _ => some fields
  | _ => none

def isTrailers : Incoming → Bool
  | .event (.trailers _ _) _ => true
  | _ => false

/-- A reset or an error of the transport. -/
def broken : Incoming → Bool
  | .failed _ | .event (.reset _) _ => true
  | _ => false

def endStream : Incoming → Bool
  | .event e _ => e.endStream
  | _ => false

/-- What the HTTP/2 layer has seen to: header blocks are valid, and trailers end the stream. -/
def Valid : Incoming → Prop
  | .event (.headers fields _) _ => validateResponseFields false fields = true
  | .event (.trailers _ endStream) _ => endStream = true
  | _ => True

instance : DecidablePred Valid := fun x => by
  unfold Valid
  split <;> infer_instance

/-- The reader of the connection sees to it. -/
theorem valid_of_checked {e : StreamEvent} (h : checked e = true) (slab : Option ℕ) :
    (event e slab).Valid := by
  cases e <;> simp_all [checked, Valid]

end Incoming

/-- The DATA received. -/
def payloads (xs : List Incoming) : Bytes := xs.flatMap Incoming.payload

/-- The response header block. -/
def responseBlock (xs : List Incoming) : Option (List Field) := xs.findSome? Incoming.header?

/-- The server has said that the call succeeded, with these messages. -/
structure Declared (max : ℤ) (xs : List Incoming) (messages : List Bytes) : Prop where
  unbroken : ∀ x ∈ xs, x.broken = false
  ok : ∃ block, responseBlock xs = some block ∧ findField block statusName = some (ascii "200")
  /-- The block that ended the stream carries a `grpc-status` of 0. -/
  ended : ∃ x v, xs.getLast? = some x ∧ x.endStream = true ∧
    findField x.block grpcStatusName = some v ∧ parseStatusCode v = Code.ok
  /-- The messages are all of the DATA, and no part of another is left. -/
  whole : oneShot max (payloads xs) = ⟨messages, none, []⟩

section Arrived

variable {xs ys : List Incoming} {x : Incoming} {block : List Field}

theorem payloads_snoc (xs : List Incoming) (x : Incoming) :
    payloads (xs ++ [x]) = payloads xs ++ x.payload := by
  simp [payloads]

theorem responseBlock_snoc (xs : List Incoming) (x : Incoming) :
    responseBlock (xs ++ [x]) = (responseBlock xs <|> x.header?) := by
  rw [responseBlock, List.findSome?_append, List.findSome?_singleton, responseBlock]
  cases List.findSome? Incoming.header? xs <;> rfl

end Arrived

/-! ## The status -/

/-- Three digits, not all of them 0. -/
def Numeric (block : List Field) : Prop :=
  ∃ v, findField block statusName = some v ∧ v.length = 3 ∧
    (∀ c ∈ v, 0x30 ≤ c ∧ c ≤ 0x39) ∧ v ≠ ascii "000"

/-- A byte that passes the test of `pseudoStatus` is a digit. -/
theorem digit_eq {c : UInt8} (h : ¬ (c < 0x30 ∨ 0x39 < c)) :
    ∃ d, d < 10 ∧ (c - 0x30).toNat = d ∧ c.toNat = 48 + d := by
  rw [not_or, UInt8.lt_iff_toNat_lt] at h
  have hlow : 48 ≤ c.toNat := Nat.not_lt.mp h.1
  have hhigh : c.toNat ≤ 57 := Nat.not_lt.mp h.2
  have hsub : (c - 0x30).toNat = c.toNat - 48 :=
    UInt8.toNat_sub_of_le c 0x30 (UInt8.le_iff_toNat_le.mpr hlow)
  exact ⟨c.toNat - 48, by omega, hsub, by omega⟩

/-- The value of three digits, or 0 where one of them is none. -/
theorem statusDigits_three {v : Bytes} (hlen : v.length = 3) :
    statusDigits 0 v = 0 ∧ ¬ (∀ c ∈ v, 0x30 ≤ c ∧ c ≤ 0x39) ∨
      ∃ d e f, d < 10 ∧ e < 10 ∧ f < 10 ∧ statusDigits 0 v = 100 * d + 10 * e + f ∧
        v.map UInt8.toNat = [48 + d, 48 + e, 48 + f] := by
  obtain ⟨a, b, c, rfl⟩ := List.length_eq_three.mp hlen
  have hout : ∀ x : UInt8, x ∈ [a, b, c] → (x < 0x30 ∨ 0x39 < x) →
      ¬ (∀ y ∈ [a, b, c], 0x30 ≤ y ∧ y ≤ 0x39) := by
    intro x hx hout hall
    obtain ⟨hlow, hhigh⟩ := hall x hx
    rcases hout with hlt | hlt
    · exact UInt8.not_lt.mpr hlow hlt
    · exact UInt8.not_lt.mpr hhigh hlt
  unfold statusDigits statusDigits statusDigits statusDigits
  split_ifs with ha hb hc
  · exact .inl ⟨rfl, hout a (by simp) ha⟩
  · exact .inl ⟨rfl, hout b (by simp) hb⟩
  · exact .inl ⟨rfl, hout c (by simp) hc⟩
  · obtain ⟨d, hd, hsub, htoNat⟩ := digit_eq ha
    obtain ⟨e, he, hsub', htoNat'⟩ := digit_eq hb
    obtain ⟨f, hf, hsub'', htoNat''⟩ := digit_eq hc
    refine .inr ⟨d, e, f, hd, he, hf, ?_, ?_⟩
    · omega
    · simp [htoNat, htoNat', htoNat'']

theorem bytes_eq_of_toNat {v w : Bytes} (h : v.map UInt8.toNat = w.map UInt8.toNat) : v = w :=
  List.map_injective_iff.mpr (fun _ _ => UInt8.toNat_inj.mp) h

variable {block : List Field}

theorem pseudoStatus_ne_zero (h : Numeric block) : pseudoStatus block ≠ 0 := by
  obtain ⟨v, hv, hlen, hdigits, hzero⟩ := h
  rw [pseudoStatus, hv]
  dsimp only
  rw [if_neg (not_not.mpr hlen)]
  rcases statusDigits_three hlen with ⟨-, hout⟩ | ⟨d, e, f, -, -, -, hvalue, hbytes⟩
  · exact absurd hdigits hout
  · intro hall
    obtain ⟨rfl, rfl, rfl⟩ : d = 0 ∧ e = 0 ∧ f = 0 := ⟨by omega, by omega, by omega⟩
    exact hzero (bytes_eq_of_toNat hbytes)

theorem findField_of_pseudoStatus (h : pseudoStatus block = 200) :
    findField block statusName = some (ascii "200") := by
  rw [pseudoStatus] at h
  cases hv : findField block statusName with
  | none => simp [hv] at h
  | some v =>
    rw [hv] at h
    dsimp only at h
    split_ifs at h with hlen
    rcases statusDigits_three (not_not.mp hlen) with ⟨hzero, -⟩ | ⟨d, e, f, hd, he, hf, hvalue, hbytes⟩
    · rw [hzero] at h
      cases h
    · obtain ⟨rfl, rfl, rfl⟩ : d = 2 ∧ e = 0 ∧ f = 0 := ⟨by omega, by omega, by omega⟩
      exact congrArg some (bytes_eq_of_toNat hbytes)

/-! ## What is seen of a block -/

/-- What a stream sees of the blocks: nothing that is not there, and the first field. -/
structure Sees (view : List Field → List Field) : Prop where
  found : ∀ {block name v}, findField (view block) name = some v → findField block name = some v
  first : ∀ f rest, findField (view (f :: rest)) f.name = some f.value

theorem sees_id : Sees id := ⟨id, fun f rest => by simp [findField]⟩

theorem sees_cloneFields : Sees cloneFields where
  found := by
    intro block name v h
    rw [findField_cloneFields, findField, Option.map_eq_some_iff] at h
    obtain ⟨f, hfind, hv⟩ := h
    rw [findField, ← List.take_append_drop maxMetadataFields block, List.find?_append, hfind]
    exact congrArg some hv
  first := by
    intro f rest
    rw [findField_cloneFields]
    simp [findField, maxMetadataFields]

theorem Stream.sees_view (s : Stream) : Sees s.view := by
  rcases s.view_eq_or with h | h
  · exact h ▸ sees_id
  · exact h ▸ sees_cloneFields

/-- The status of a block that passed the validation is seen. -/
theorem Sees.pseudoStatus_eq {view : List Field → List Field} (h : Sees view)
    (hvalid : Conn.validateResponseFields false block = true) :
    pseudoStatus (view block) = pseudoStatus block := by
  obtain ⟨f, rest, rfl, hname, -, -⟩ := Conn.validateResponseFields_response.mp hvalid
  have hseen := h.first f rest
  rw [pseudoStatus, pseudoStatus, show statusName = f.name from hname.symm, hseen, h.found hseen]

/-! ## The receiver -/

/-- The last event carries a block that ends the call well, as far as the status lets it. -/
def Closing (view : List Field → List Field) (httpStatus : ℕ) (xs : List Incoming) : Prop :=
  (httpStatus = 0 ∨ httpStatus = 200) ∧
    ∃ x v, xs.getLast? = some x ∧ findField (view x.block) grpcStatusName = some v ∧
      parseStatusCode v = Code.ok ∧
      (httpStatus = 200 → x.isTrailers = true ∨ x.endStream = true)

/-- The receiver after the events `xs`, of which it returned the messages `ms`. -/
structure Heard (view : List Field → List Field) (max : ℤ) (xs : List Incoming) (ms : List Bytes)
    (r : Receiver) : Prop where
  sound : Session.Sound max ⟨r.dec, r.pool, payloads xs, ms, none⟩
  opened : r.closed = false
  seen : r.headersSeen = (responseBlock xs).isSome
  http : r.httpStatus = ((responseBlock xs).map fun block => pseudoStatus (view block)).getD 0
  err_ne : r.err ≠ some .eof
  unbroken : r.err = none → (r.done = true → r.status.code = Code.ok) → ∀ x ∈ xs, x.broken = false
  closing : r.done = true → r.status.code = Code.ok → Closing view r.httpStatus xs

section Receiver

variable {view : List Field → List Field} {max : ℤ} {xs : List Incoming} {ms : List Bytes}
  {r : Receiver} {x : Incoming}

/-- Only a `grpc-status` of 0 makes a success, and not beside a status other than 200. -/
theorem finalStatus_ok {httpStatus : ℕ} {fields : List Field}
    (h : (finalStatus httpStatus fields).code = Code.ok) :
    (httpStatus = 0 ∨ httpStatus = 200) ∧
      ∃ v, findField fields grpcStatusName = some v ∧ parseStatusCode v = Code.ok := by
  unfold finalStatus at h
  cases hv : findField fields grpcStatusName with
  | none =>
    simp only [hv] at h
    split_ifs at h
    · exact absurd h (statusFromHTTP_ne_ok _)
    · cases h
  | some v =>
    simp only [hv] at h
    split_ifs at h with hcond
    · have hok : parseStatusCode v = Code.ok := h
      have hhttp : ¬ (httpStatus ≠ 0 ∧ httpStatus ≠ 200) := hcond.resolve_right (not_not.mpr hok)
      exact ⟨by omega, v, rfl, hok⟩
    · exact absurd h (statusFromHTTP_ne_ok _)

theorem heard_start (view : List Field → List Field) (max : ℤ) :
    Heard view max [] [] { dec := { max } } where
  sound := Session.sound_start max
  opened := rfl
  seen := rfl
  http := rfl
  err_ne := nofun
  unbroken := by simp
  closing := nofun

/-- A failure is never taken for the end of the call. -/
theorem Heard.setErr (h : Heard view max xs ms r) {e : Err} (he : e ≠ .eof) :
    Heard view max xs ms { r with err := some e } :=
  { h with
    err_ne := by simpa using he
    unbroken := nofun }

theorem fail_of_err {e first : Err} (h : r.err = some first) : r.fail e = (r, first) := by
  rw [Receiver.fail, h]

theorem fail_of_none {e : Err} (h : r.err = none) : r.fail e = ({ r with err := some e }, e) := by
  rw [Receiver.fail, h]

theorem responseBlock_snoc_of_header (hheader : x.header? = none) :
    responseBlock (xs ++ [x]) = responseBlock xs := by
  rw [responseBlock_snoc, hheader]
  cases responseBlock xs <;> rfl

/-- A block that `finish` takes for a success closes the call. -/
theorem closing_of_finalStatus (x : Incoming) {http : ℕ}
    (hend : http = 200 → x.isTrailers = true ∨ x.endStream = true)
    (h : (finalStatus http (view x.block)).code = Code.ok) :
    Closing view http (xs ++ [x]) := by
  obtain ⟨hhttp, v, hv, hok⟩ := finalStatus_ok h
  exact ⟨hhttp, x, v, List.getLast?_concat, hv, hok, hend⟩

variable (h : Heard view max xs ms r) (herr : r.err = none) (hdone : r.done = false)

include h herr hdone

/-- One more event. -/
theorem Heard.event {dec : Decoder} {pool : SlabPool} {seen : Bool} {http : ℕ} {status : Status}
    {done : Bool}
    (hsound : Session.Sound max ⟨dec, pool, payloads xs ++ x.payload, ms, none⟩)
    (hseen : seen = (responseBlock (xs ++ [x])).isSome)
    (hhttp : http = ((responseBlock (xs ++ [x])).map fun block => pseudoStatus (view block)).getD 0)
    (hbroken : (done = true → status.code = Code.ok) → x.broken = false)
    (hclosing : done = true → status.code = Code.ok → Closing view http (xs ++ [x])) :
    Heard view max (xs ++ [x]) ms
      { r with dec, pool, headersSeen := seen, httpStatus := http, status, done } := by
  refine ⟨?_, h.opened, hseen, hhttp, h.err_ne, ?_, hclosing⟩
  · rw [payloads_snoc]
    exact hsound
  · intro _ hok
    exact List.forall_mem_append.mpr ⟨h.unbroken herr (by simp [hdone]),
      List.forall_mem_singleton.mpr (hbroken hok)⟩

/-- An event that leaves the header block as it is. -/
theorem Heard.later (hpayload : x.payload = [])
    (hblock : responseBlock (xs ++ [x]) = responseBlock xs) {status : Status} {done : Bool}
    (hbroken : (done = true → status.code = Code.ok) → x.broken = false)
    (hclosing : done = true → status.code = Code.ok → Closing view r.httpStatus (xs ++ [x])) :
    Heard view max (xs ++ [x]) ms { r with status := status, done := done } :=
  h.event herr hdone (by simpa [hpayload] using h.sound) (hblock ▸ h.seen) (hblock ▸ h.http) hbroken
    hclosing

theorem Heard.onHeaders (block : List Field) (endStream : Bool) (slab : Option ℕ) :
    Heard view max (xs ++ [.event (.headers block endStream) slab]) ms
      (r.onHeaders (view block) endStream) := by
  unfold Receiver.onHeaders
  by_cases hseen : r.headersSeen = true
  · -- a second block is dropped
    rw [if_pos hseen]
    refine h.later herr hdone rfl ?_ (fun _ => rfl) (by simp [hdone])
    rw [h.seen, Option.isSome_iff_exists] at hseen
    obtain ⟨first, hfirst⟩ := hseen
    rw [responseBlock_snoc, hfirst]
    rfl
  · have hnone : responseBlock xs = none := by
      rw [h.seen] at hseen
      simpa using hseen
    have hblock : responseBlock (xs ++ [.event (.headers block endStream) slab]) = some block := by
      rw [responseBlock_snoc, hnone]
      rfl
    have hfirst : ∀ {status done}, (done = true → status.code = Code.ok →
        Closing view (pseudoStatus (view block)) (xs ++ [.event (.headers block endStream) slab])) →
        Heard view max (xs ++ [.event (.headers block endStream) slab]) ms
          { r with headersSeen := true, httpStatus := pseudoStatus (view block), status, done } :=
      h.event herr hdone (by simpa [Incoming.payload] using h.sound) (by rw [hblock]; rfl)
        (by rw [hblock]; rfl) fun _ => rfl
    dsimp only
    split_ifs with hend hstatus htype
    · refine hfirst fun _ => ?_
      exact closing_of_finalStatus (.event (.headers block endStream) slab) fun _ => .inr hend
    · refine hfirst fun _ => ?_
      exact closing_of_finalStatus (.event (.headers block endStream) slab) fun hok => absurd hok hstatus
    · exact hfirst (by simp [hdone])
    · exact hfirst (by simp [Code.internal, Code.ok])

theorem Heard.onData (payload : Bytes) (endStream : Bool) (slab : Option ℕ) :
    Heard view max (xs ++ [.event (.data payload endStream) slab]) ms
      (r.onData payload slab endStream) := by
  have hblock : responseBlock (xs ++ [.event (.data payload endStream) slab]) = responseBlock xs :=
    responseBlock_snoc_of_header rfl
  have hseen : r.headersSeen = _ := hblock ▸ h.seen
  have hsound := h.sound.step (.chunk payload slab true) nofun
  unfold Receiver.onData
  split_ifs
  · refine h.event herr hdone hsound hseen (hblock ▸ h.http) (fun _ => rfl) ?_
    -- DATA at the end carries no grpc-status
    intro _ hok
    obtain ⟨-, v, hv, -⟩ := finalStatus_ok hok
    cases hv
  · exact h.event herr hdone hsound hseen (hblock ▸ h.http) (fun _ => rfl) (by simp [hdone])

/-- One event. -/
theorem Heard.pump (x : Incoming) : Heard view max (xs ++ [x]) ms (r.pump view x).1 := by
  cases x with
  | pushPromise =>
    exact h.later herr hdone rfl (responseBlock_snoc_of_header rfl) (fun _ => rfl) (by simp [hdone])
  | failed err =>
    show Heard view max _ ms (r.fail _).1
    rw [fail_of_none herr]
    have hblock : responseBlock (xs ++ [.failed err]) = responseBlock xs :=
      responseBlock_snoc_of_header rfl
    refine ⟨?_, h.opened, hblock ▸ h.seen, hblock ▸ h.http, nofun, nofun, by simp [hdone]⟩
    rw [payloads_snoc]
    exact (List.append_nil (payloads xs)).symm ▸ h.sound
  | event e slab =>
    cases e with
    | interimHeaders block endStream =>
      exact h.later herr hdone rfl (responseBlock_snoc_of_header rfl) (fun _ => rfl) (by simp [hdone])
    | headers block endStream => exact h.onHeaders herr hdone block endStream slab
    | data payload endStream => exact h.onData herr hdone payload endStream slab
    | trailers block endStream =>
      refine h.later herr hdone rfl (responseBlock_snoc_of_header rfl) (fun _ => rfl) fun _ => ?_
      exact closing_of_finalStatus (.event (.trailers block endStream) slab) fun _ => .inl rfl
    | reset code =>
      refine h.later herr hdone rfl (responseBlock_snoc_of_header rfl) ?_ ?_
      · intro hok
        exact absurd (hok rfl) (statusFromRST_ne_ok code)
      · intro _ hok
        exact absurd hok (statusFromRST_ne_ok code)

end Receiver

/-! ## What a call returns -/

/-- The receiver answers every call with the same error. -/
def Stuck (e : Err) (r : Receiver) : Prop :=
  r.lookMessage = (r, some (.error e)) ∧
    ∀ β : Type, (r.lookEnd : Receiver × Option (Except Err β)) = (r, some (.error e))

section Look

variable {view : List Field → List Field} {max : ℤ} {xs : List Incoming} {ms : List Bytes}
  {r : Receiver} {e : Err}

/-- The decoder has no message: it waits for one, or has refused one. -/
def Decoder.Dry (d : Decoder) : Prop :=
  d.next = (d, .ok none) ∨ ∃ e, e ≠ .outOfRange ∧ d.next = (d, .error e)

/-- There is a message, or none, or `Next` panics. -/
theorem Decoder.next_cases (d : Decoder) :
    (∃ m, d.next.2 = .ok (some m)) ∨ d.Dry ∨ d.next.2 = .error .outOfRange := by
  rw [Dry, d.next_eq]
  cases hfront : (wire d.limit).front d.avail with
  | item m n =>
    rw [answer]
    split_ifs
    · exact .inr (.inr rfl)
    · exact .inl ⟨m, rfl⟩
  | short => exact .inr (.inl (.inl rfl))
  | broken e =>
    refine .inr (.inl (.inr ⟨e, ?_, rfl⟩))
    obtain ⟨flag, hdr, rest, -, -, hpayload⟩ := header_of_front hfront (by simp)
    unfold payloadFront at hpayload
    split_ifs at hpayload <;> cases hpayload <;> simp

theorem lookMessage_of_error {e : FramingErr} (he : e ≠ .outOfRange)
    (h : r.dec.next = (r.dec, .error e)) :
    r.lookMessage = ((r.fail (.framing e)).1, some (.error (r.fail (.framing e)).2)) := by
  cases e with
  | outOfRange => exact absurd rfl he
  | _ => rw [lookMessage, h]

theorem lookMessage_of_short (h : r.dec.next = (r.dec, .ok none)) : r.lookMessage = r.lookEnd := by
  rw [lookMessage, h]

theorem lookEnd_of_err (β : Type) (h : r.err = some e) :
    (r.lookEnd : Receiver × Option (Except Err β)) = (r, some (.error e)) := by
  rw [lookEnd, h]

theorem stuck_of_err (h : r.err = some e) (hdry : r.dec.Dry) : Stuck e r := by
  refine ⟨?_, fun β => lookEnd_of_err β h⟩
  rcases hdry with hshort | ⟨e', hne, he'⟩
  · exact (lookMessage_of_short hshort).trans (lookEnd_of_err _ h)
  · rw [lookMessage_of_error hne he', fail_of_err h]

theorem lookEnd_of_done (β : Type) (herr : r.err = none) (hdone : r.done = true) :
    (r.lookEnd : Receiver × Option (Except Err β)) = (r.terminal.1, some (.error r.terminal.2)) := by
  rw [lookEnd, herr]
  exact if_pos hdone

/-- The ends of a stream: a status, a message cut off, or success. -/
theorem terminal_cases (herr : r.err = none) :
    (∃ st, r.terminal = (r, .status st)) ∨
      (∃ st, r.terminal = ({ r with err := some (.status st) }, .status st)) ∨
      r.status.code = Code.ok ∧ r.dec.pending ≤ 0 ∧ r.terminal = (r, .eof) := by
  unfold Receiver.terminal Status.err
  by_cases hok : r.status.code = Code.ok
  · split_ifs with hpending
    · rw [fail_of_none herr]
      exact .inr (.inl ⟨_, rfl⟩)
    · exact .inr (.inr ⟨hok, Int.not_lt.mp hpending, rfl⟩)
  · rw [if_neg hok]
    exact .inl ⟨_, rfl⟩

/-- What the end of the stream says is final. -/
theorem lookEnd_cases (β : Type) (r : Receiver) :
    (r.lookEnd : Receiver × Option (Except Err β)) = (r, none) ∧ r.err = none ∧ r.done = false ∨
      ∃ e, (∀ γ : Type, (r.lookEnd : Receiver × Option (Except Err γ)) = (r, some (.error e))) ∨
        e ≠ .eof ∧ (r.lookEnd : Receiver × Option (Except Err β)) =
          ({ r with err := some e }, some (.error e)) := by
  cases herr : r.err with
  | some e => exact .inr ⟨e, .inl fun γ => lookEnd_of_err γ herr⟩
  | none =>
    cases hdone : r.done with
    | false =>
      refine .inl ⟨?_, rfl, rfl⟩
      rw [lookEnd, herr]
      exact if_neg (by simp [hdone])
    | true =>
      right
      simp only [lookEnd_of_done _ herr hdone]
      rcases terminal_cases herr with ⟨st, hst⟩ | ⟨st, hst⟩ | ⟨-, -, heof⟩
      · exact ⟨.status st, .inl fun γ => by rw [hst]⟩
      · exact ⟨.status st, .inr ⟨nofun, by rw [hst, hdone]⟩⟩
      · exact ⟨.eof, .inl fun γ => by rw [heof]⟩

/-- The answer of `RecvInto` before it pumps. -/
inductive Looked (r : Receiver) : Receiver × Option (Except Err (Option Bytes)) → Prop
  | message (m : Bytes) (h : r.dec.next.2 = .ok (some m)) :
      Looked r ({ r with dec := r.dec.next.1 }, some (.ok (some m)))
  | panic : Looked r ({ r with dec := r.dec.next.1 }, some (.ok none))
  | wait (herr : r.err = none) (hdone : r.done = false) (hnext : r.dec.next = (r.dec, .ok none)) :
      Looked r (r, none)
  | stop (e : Err) (h : Stuck e r) : Looked r (r, some (.error e))
  | fail (e : Err) (he : e ≠ .eof) (h : Stuck e { r with err := some e }) :
      Looked r ({ r with err := some e }, some (.error e))

theorem looked (r : Receiver) : Looked r r.lookMessage := by
  rcases r.dec.next_cases with ⟨m, hm⟩ | hdry | hpanic
  · have heq : r.dec.next = (r.dec.next.1, .ok (some m)) := Prod.ext rfl hm
    have hlook : r.lookMessage = ({ r with dec := r.dec.next.1 }, some (.ok (some m))) := by
      rw [lookMessage, heq]
    rw [hlook]
    exact .message m hm
  · rcases hdry with hshort | ⟨e, hne, he⟩
    · rw [lookMessage_of_short hshort]
      rcases lookEnd_cases (Option Bytes) r with ⟨hlook, herr, hdone⟩ | ⟨e, hlook | ⟨he, hlook⟩⟩
      · rw [hlook]
        exact .wait herr hdone hshort
      · rw [hlook]
        exact .stop e ⟨(lookMessage_of_short hshort).trans (hlook _), hlook⟩
      · rw [hlook]
        exact .fail e he (stuck_of_err rfl (.inl hshort))
    · rw [lookMessage_of_error hne he]
      cases herr : r.err with
      | some first =>
        rw [fail_of_err herr]
        exact .stop first (stuck_of_err herr (.inr ⟨e, hne, he⟩))
      | none =>
        rw [fail_of_none herr]
        exact .fail _ nofun (stuck_of_err rfl (.inr ⟨e, hne, he⟩))
  · have heq : r.dec.next = (r.dec.next.1, .error .outOfRange) := Prod.ext rfl hpanic
    have hlook : r.lookMessage = ({ r with dec := r.dec.next.1 }, some (.ok none)) := by
      rw [lookMessage, heq]
    rw [hlook]
    exact .panic

/-- A message taken from the front of the bytes. -/
theorem Heard.message (h : Heard view max xs ms r) {m : Bytes} (hm : r.dec.next.2 = .ok (some m)) :
    Heard view max xs (ms ++ [m]) { r with dec := r.dec.next.1 } := by
  have hsound := h.sound.next (Decoder.fits_of_next hm)
  rw [Session.step, show r.dec.next = (r.dec.next.1, .ok (some m)) from Prod.ext rfl hm] at hsound
  exact { h with sound := hsound }

/-- An event that makes the call fail does so for good. -/
theorem stuck_of_pump {x : Incoming} (herr : r.err = none) (hnext : r.dec.next = (r.dec, .ok none))
    (h : (r.pump view x).2 = some e) : Stuck e (r.pump view x).1 := by
  cases x with
  | pushPromise => cases h
  | failed err =>
    rw [Receiver.pump, fail_of_none herr] at h ⊢
    obtain rfl := Option.some.inj h
    exact stuck_of_err rfl (.inl hnext)
  | event e slab => cases e <;> cases h

/-- The end that a receiver stuck with `io.EOF` has come to. -/
theorem Heard.ended (h : Heard view max xs ms r) (hstuck : Stuck .eof r) :
    r.err = none ∧ r.done = true ∧ r.status.code = Code.ok ∧
      oneShot max (payloads xs) = ⟨ms, none, []⟩ := by
  obtain ⟨-, hend⟩ := hstuck
  have herr : r.err = none := by
    cases herr : r.err with
    | none => rfl
    | some e =>
      have heq := (lookEnd_of_err Bytes herr).symm.trans (hend Bytes)
      simp only [Prod.mk.injEq, true_and, Option.some.injEq, Except.error.injEq] at heq
      exact absurd (herr.trans (congrArg some heq)) h.err_ne
  have hdone : r.done = true := by
    have hend := hend Bytes
    rw [lookEnd, herr] at hend
    split_ifs at hend with hdone
    · exact hdone
    · cases hend
  have hterminal : r.terminal.2 = .eof := by
    have heq := (lookEnd_of_done Bytes herr hdone).symm.trans (hend Bytes)
    simpa using congrArg Prod.snd heq
  refine ⟨herr, hdone, ?_⟩
  rcases terminal_cases herr with ⟨st, hst⟩ | ⟨st, hst⟩ | ⟨hok, hpending, -⟩
  · rw [hst] at hterminal
    cases hterminal
  · rw [hst] at hterminal
    cases hterminal
  · refine ⟨hok, ?_⟩
    have havail : r.dec.avail = [] := by
      have hlen : r.dec.pending = r.dec.avail.length := h.sound.ok.pending_eq
      rw [← List.length_eq_zero_iff]
      omega
    have hshort : r.dec.next.2 = .ok none := by
      rw [r.dec.next_eq, havail]
      rfl
    have hwait := (h.sound.exact (Decoder.fits_of_next hshort)).waiting hshort
    exact havail ▸ hwait

end Look

/-! ## Calls -/

/-- What holds between events, and what it makes of every answer. -/
theorem pumpUntil_induction {σ β : Type} {pump : σ → Incoming → σ × Option Err}
    {look : σ → σ × Option (Except Err β)} {I : List Incoming → σ → Prop}
    {Q : List Incoming → σ → Except Err β → Prop}
    (hlook : ∀ {c s r}, I c s → (look s).2 = some r → Q c (look s).1 r)
    (hpump : ∀ {c s x}, I c s → (look s).2 = none →
      ((pump (look s).1 x).2 = none → I (c ++ [x]) (pump (look s).1 x).1) ∧
        ∀ e, (pump (look s).1 x).2 = some e → Q (c ++ [x]) (pump (look s).1 x).1 (.error e))
    {c : List Incoming} {s : σ} (h : I c s) (xs : List Incoming) :
    ∃ c', xs = c' ++ (pumpUntil pump look s xs).1.2 ∧
      ∀ r, (pumpUntil pump look s xs).2 = some r → Q (c ++ c') (pumpUntil pump look s xs).1.1 r := by
  induction xs generalizing c s with
  | nil =>
    refine ⟨[], rfl, ?_⟩
    intro r hr
    rw [List.append_nil]
    exact hlook h hr
  | cons x xs ih =>
    rw [pumpUntil]
    rcases hs : look s with ⟨s₁, _ | r⟩
    · have hnone : (look s).2 = none := congrArg Prod.snd hs
      have hstep := hpump (x := x) h hnone
      rw [hs] at hstep
      dsimp only
      rcases hp : pump s₁ x with ⟨s₂, _ | e⟩
      · rw [hp] at hstep
        obtain ⟨c', hc', hQ⟩ := ih (hstep.1 rfl)
        refine ⟨x :: c', congrArg (x :: ·) hc', ?_⟩
        intro r hr
        have := hQ r hr
        rwa [List.append_assoc] at this
      · rw [hp] at hstep
        refine ⟨[x], rfl, ?_⟩
        intro r hr
        obtain rfl := Option.some.inj hr
        exact hstep.2 e rfl
    · refine ⟨[], rfl, ?_⟩
      intro r' hr'
      have hr : (look s).2 = some r' := (congrArg Prod.snd hs).trans hr'
      have := hlook h hr
      rwa [hs, ← List.append_nil c] at this

/-- The messages among the outcomes of the calls. -/
def Stream.Outcome.message? : Stream.Outcome → Option Bytes
  | .received m none => some m
  | _ => none

/-- After an error of `Recv`, every `Recv` returns that error and no message. -/
def Stream.Outcome.Sticks (o o' : Stream.Outcome) : Prop :=
  ∀ d e, o = .received d (some e) → ∀ d' err, o' = .received d' err → d' = [] ∧ err = some e

namespace Stream

variable {a : Allocator} {view : List Field → List Field} {max : ℤ} {c xs : List Incoming}
  {ms : List Bytes} {s : Stream} {e : Err}

/-- The stream after the events `c`, of which it returned the messages `ms`. -/
def Hears (view : List Field → List Field) (max : ℤ) (c : List Incoming) (ms : List Bytes)
    (s : Stream) : Prop :=
  s.view = view ∧ Heard view max c ms s.rx

theorem Hears.setRx (h : s.Hears view max c ms) {ms' : List Bytes} {r : Receiver}
    (hr : Heard view max c ms' r) : ({ s with rx := r } : Stream).Hears view max c ms' :=
  ⟨h.1, hr⟩

theorem Hears.pump (h : s.Hears view max c ms) (herr : s.rx.err = none) (hdone : s.rx.done = false)
    (a : Allocator) (x : Incoming) : (s.pump a x).1.Hears view max (c ++ [x]) ms := by
  obtain ⟨hview, hheard⟩ := h
  refine ⟨?_, ?_⟩
  · rw [Stream.view, pump_discardMD]
    exact hview
  · have hrx : (s.pump a x).1.rx = (s.rx.pump view x).1 := hview ▸ congrArg Prod.fst (pump_rx a s x)
    rw [hrx]
    exact hheard.pump herr hdone x

/-- What `Recv` leaves if it returns: one message more, or a stream that is stuck. -/
def Answered (view : List Field → List Field) (max : ℤ) (ms : List Bytes) (c : List Incoming)
    (s : Stream) : Except Err (Option Bytes) → Prop
  | .ok none => True
  | .ok (some m) => s.Hears view max c (ms ++ [m])
  | .error e => s.Hears view max c ms ∧ Stuck e s.rx

theorem Hears.recv (h : s.Hears view max c ms) (a : Allocator) (xs : List Incoming) :
    ∃ c', xs = c' ++ (pumpUntil (Stream.pump a) lookMessage s xs).1.2 ∧
      ∀ r, (pumpUntil (Stream.pump a) lookMessage s xs).2 = some r →
        Answered view max ms (c ++ c') (pumpUntil (Stream.pump a) lookMessage s xs).1.1 r := by
  refine pumpUntil_induction (I := fun c (s : Stream) => s.Hears view max c ms)
    ?_ ?_ h xs
  · intro c s r h hr
    have hlooked := looked s.rx
    have hr : s.rx.lookMessage.2 = some r := hr
    unfold Stream.lookMessage
    generalize hout : s.rx.lookMessage = out at hlooked hr
    cases hlooked with
    | message m hm =>
      obtain rfl := Option.some.inj hr
      exact h.setRx (h.2.message hm)
    | panic =>
      obtain rfl := Option.some.inj hr
      trivial
    | wait herr hdone hnext => cases hr
    | stop e hstuck =>
      obtain rfl := Option.some.inj hr
      exact ⟨h, hstuck⟩
    | fail e he hstuck =>
      obtain rfl := Option.some.inj hr
      exact ⟨h.setRx (h.2.setErr he), hstuck⟩
  · intro c s x h hnone
    have hlooked := looked s.rx
    have hnone : s.rx.lookMessage.2 = none := hnone
    unfold Stream.lookMessage
    generalize hout : s.rx.lookMessage = out at hlooked hnone
    cases hlooked with
    | message | panic | stop | fail => cases hnone
    | wait herr hdone hnext =>
      have hpumped := h.pump herr hdone a x
      refine ⟨fun _ => hpumped, ?_⟩
      intro e he
      have hrx := pump_rx a s x
      rw [Prod.ext_iff] at hrx
      refine ⟨hpumped, ?_⟩
      rw [show (s.pump a x).1.rx = (s.rx.pump s.view x).1 from hrx.1]
      exact stuck_of_pump herr hnext (hrx.2.symm.trans he)

/-- `Header` may take in events as well. -/
theorem Hears.header (h : s.Hears view max c ms) (a : Allocator) (xs : List Incoming) :
    ∃ c', xs = c' ++ (pumpUntil (Stream.pump a) lookHeader s xs).1.2 ∧
      ∀ r, (pumpUntil (Stream.pump a) lookHeader s xs).2 = some r →
        (pumpUntil (Stream.pump a) lookHeader s xs).1.1.Hears view max (c ++ c') ms := by
  have hlook : ∀ {c : List Incoming} {s : Stream}, s.Hears view max c ms →
      s.lookHeader.1.Hears view max c ms ∧
        (s.lookHeader.2 = none → s.lookHeader.1 = s ∧ s.rx.err = none ∧ s.rx.done = false) := by
    intro c s h
    unfold Stream.lookHeader Receiver.lookHeader
    split_ifs
    · exact ⟨h, nofun⟩
    · rcases lookEnd_cases (List Field) s.rx with ⟨hend, herr, hdone⟩ | ⟨e, hend | ⟨he, hend⟩⟩
      · rw [hend]
        exact ⟨h, fun _ => ⟨rfl, herr, hdone⟩⟩
      · rw [hend (List Field)]
        exact ⟨h, nofun⟩
      · rw [hend]
        exact ⟨h.setRx (h.2.setErr he), nofun⟩
  refine pumpUntil_induction (I := fun c (s : Stream) => s.Hears view max c ms)
    (Q := fun c (s : Stream) _ => s.Hears view max c ms) (fun h _ => (hlook h).1) ?_ h xs
  intro c s x h hnone
  obtain ⟨hsame, herr, hdone⟩ := (hlook h).2 hnone
  rw [hsame]
  have hpumped := h.pump herr hdone a x
  exact ⟨fun _ => hpumped, fun _ _ => hpumped⟩

/-! ## Runs -/

theorem recvInto_stuck (h : Stuck e s.rx) (hopen : s.rx.closed = false) (dst : Bytes) :
    s.recvInto a dst xs = ((s, xs), some ([], some e)) := by
  have hlook : s.lookMessage = (s, some (.error e)) := by
    rw [Stream.lookMessage, h.1]
  rw [Stream.recvInto, if_neg (by simp [hopen])]
  cases xs <;> simp [pumpUntil, hlook, received]

theorem getHeader_stuck (h : Stuck e s.rx) (hopen : s.rx.closed = false) (a : Allocator)
    (xs : List Incoming) :
    ∃ r, s.getHeader a xs = ((s, xs), some r) := by
  have hlook : ∃ r, s.lookHeader = (s, some r) := by
    unfold Stream.lookHeader Receiver.lookHeader
    split_ifs
    · exact ⟨_, rfl⟩
    · rw [h.2]
      exact ⟨_, rfl⟩
  obtain ⟨r, hlook⟩ := hlook
  rw [Stream.getHeader, if_neg (by simp [hopen])]
  cases xs <;> exact ⟨r, by simp [pumpUntil, hlook]⟩

variable {sx : Stream × List Incoming}

theorem run_cons {o : Outcome} {call : Call} (calls : List Call)
    (h : s.call a xs call = (sx, some o)) :
    s.run a xs (call :: calls) = ((sx.1.run a sx.2 calls).1, o :: (sx.1.run a sx.2 calls).2) := by
  rw [Stream.run, h]

variable {calls : List Call} {c₁ ys : List Incoming}

/-- A stuck stream takes in nothing more, and answers every call. -/
theorem run_stuck (h : Stuck e s.rx) (hopen : s.rx.closed = false) (a : Allocator)
    (xs : List Incoming) (hcalls : ∀ call ∈ calls, call ≠ .close) :
    ∃ outs, s.run a xs calls = ((s, xs), outs) ∧ outs.length = calls.length ∧
      ∀ o ∈ outs, ∀ d err, o = .received d err → d = [] ∧ err = some e := by
  induction calls with
  | nil => exact ⟨[], rfl, rfl, nofun⟩
  | cons call calls ih =>
    obtain ⟨outs, hrun, hlength, houts⟩ := ih fun call hcall => hcalls call (List.mem_cons_of_mem _ hcall)
    have hanswer : ∃ o, s.call a xs call = ((s, xs), some o) ∧
        ∀ d err, o = .received d err → d = [] ∧ err = some e := by
      cases call with
      | recvInto | recv =>
        refine ⟨.received [] (some e), ?_, by rintro d err ⟨⟩; exact ⟨rfl, rfl⟩⟩
        simp only [Stream.call, Stream.recv, recvInto_stuck h hopen]
        rfl
      | header =>
        obtain ⟨r, hr⟩ := getHeader_stuck h hopen a xs
        exact ⟨.header r, by rw [Stream.call, hr]; rfl, nofun⟩
      | close => exact absurd rfl (hcalls _ List.mem_cons_self)
    obtain ⟨o, hcall, ho⟩ := hanswer
    refine ⟨o :: outs, ?_, by rw [List.length_cons, hlength, List.length_cons], ?_⟩
    · rw [run_cons calls hcall, hrun]
    · exact List.forall_mem_cons.mpr ⟨ho, houts⟩

/-- What holds of the calls on a stream and their outcomes. -/
structure Ran (view : List Field → List Field) (max : ℤ) (c : List Incoming) (ms : List Bytes)
    (xs : List Incoming) (calls : List Call) (out : (Stream × List Incoming) × List Outcome) :
    Prop where
  ended : ∀ d, .received d (some .eof) ∈ out.2 → ∃ c', xs = c' ++ out.1.2 ∧
    out.1.1.Hears view max (c ++ c') (ms ++ out.2.filterMap Outcome.message?) ∧ Stuck .eof out.1.1.rx
  sticky : out.2.Pairwise Outcome.Sticks
  returned : ∀ d e, .received d (some e) ∈ out.2 → out.2.length = calls.length

theorem ran_nil (sx : Stream × List Incoming) (calls : List Call) :
    Ran view max c ms xs calls (sx, []) :=
  ⟨nofun, .nil, nofun⟩

/-- A call that does not return is the last. -/
theorem ran_pending {call : Call} (h : s.call a xs call = (sx, none)) :
    Ran view max c ms xs (call :: calls) (s.run a xs (call :: calls)) := by
  rw [Stream.run, h]
  exact ran_nil _ _

/-- A call that does not fail, before others. -/
theorem Ran.cons {out : (Stream × List Incoming) × List Outcome} {o : Outcome}
    (h : Ran view max (c ++ c₁) (ms ++ o.message?.toList) ys calls out)
    (ho : ∀ d e, o ≠ .received d (some e)) (hxs : xs = c₁ ++ ys) (call : Call) :
    Ran view max c ms xs (call :: calls) (out.1, o :: out.2) := by
  refine ⟨?_, ?_, ?_⟩
  · intro d hd
    obtain ⟨c', hys, hheard, hstuck⟩ := h.ended d ((List.mem_cons.mp hd).resolve_left (ho d _).symm)
    refine ⟨c₁ ++ c', ?_, ?_, hstuck⟩
    · rw [hxs, List.append_assoc, ← hys]
    · rw [← List.append_assoc]
      have hmessages : (o :: out.2).filterMap Outcome.message? =
          o.message?.toList ++ out.2.filterMap Outcome.message? := by
        rw [List.filterMap_cons]
        cases o.message? <;> rfl
      rw [hmessages, ← List.append_assoc]
      exact hheard
  · refine List.pairwise_cons.mpr ⟨?_, h.sticky⟩
    intro o' _ d e heq
    exact absurd heq (ho d e)
  · intro d e hd
    rw [List.length_cons, List.length_cons,
      h.returned d e ((List.mem_cons.mp hd).resolve_left (ho d e).symm)]

/-- A `Recv` that fails, before other calls. -/
theorem ran_stuck (hheard : s.Hears view max (c ++ c₁) ms)
    (hstuck : Stuck e s.rx) (hcalls : ∀ call ∈ calls, call ≠ .close)
    (hxs : xs = c₁ ++ ys) (call : Call) :
    Ran view max c ms xs (call :: calls)
      ((s.run a ys calls).1, .received [] (some e) :: (s.run a ys calls).2) := by
  obtain ⟨outs, hrun, hlength, houts⟩ := run_stuck hstuck hheard.2.opened a ys hcalls
  rw [hrun]
  have hmessages : outs.filterMap Outcome.message? = [] := by
    rw [List.filterMap_eq_nil_iff]
    intro o ho
    cases o with
    | received d err =>
      obtain ⟨-, rfl⟩ := houts _ ho d err rfl
      rfl
    | header | closed => rfl
  refine ⟨?_, ?_, ?_⟩
  · intro d hd
    have heof : e = .eof := by
      rcases List.mem_cons.mp hd with heq | hd
      · cases heq
        rfl
      · exact (Option.some.inj (houts _ hd d _ rfl).2).symm
    refine ⟨c₁, hxs, ?_, heof ▸ hstuck⟩
    show s.Hears view max (c ++ c₁) (ms ++ outs.filterMap Outcome.message?)
    rw [hmessages, List.append_nil]
    exact hheard
  · refine List.pairwise_cons.mpr ⟨?_, ?_⟩
    · rintro o ho d e' ⟨⟩
      exact houts o ho
    · refine List.pairwise_of_forall_mem_list ?_
      rintro o ho o' ho' d e' rfl
      obtain ⟨-, he⟩ := houts _ ho d _ rfl
      intro d' err heq
      obtain ⟨hd', herr⟩ := houts o' ho' d' err heq
      exact ⟨hd', herr.trans he.symm⟩
  · intro _ _ _
    rw [List.length_cons, List.length_cons, hlength]

/-- Any calls but `Close`. -/
theorem Hears.run (h : s.Hears view max c ms) (a : Allocator) (xs : List Incoming)
    (hcalls : ∀ call ∈ calls, call ≠ .close) :
    Ran view max c ms xs calls (s.run a xs calls) := by
  induction calls generalizing s c ms xs with
  | nil => exact ran_nil _ _
  | cons call calls ih =>
    have hcalls' : ∀ call ∈ calls, call ≠ .close :=
      fun call hcall => hcalls call (List.mem_cons_of_mem _ hcall)
    have hopen : ¬ s.rx.closed = true := by simp [h.2.opened]
    have hrecv : ∀ dst, s.call a xs call = ((s.recvInto a dst xs).1,
        (s.recvInto a dst xs).2.map fun r => .received r.1 r.2) →
        Ran view max c ms xs (call :: calls) (s.run a xs (call :: calls)) := by
      intro dst hcall
      rw [Stream.recvInto, if_neg hopen] at hcall
      obtain ⟨c₁, hxs, hanswered⟩ := h.recv a xs
      cases hr : (pumpUntil (Stream.pump a) lookMessage s xs).2 with
      | none =>
        rw [hr] at hcall
        exact ran_pending hcall
      | some r =>
        have hanswered := hanswered r hr
        rw [hr] at hcall
        rcases r with e | _ | m
        · rw [run_cons calls hcall]
          exact ran_stuck hanswered.1 hanswered.2 hcalls' hxs call
        · -- a panic
          exact ran_pending hcall
        · rw [run_cons calls hcall]
          have hrest := ih hanswered (pumpUntil (Stream.pump a) lookMessage s xs).1.2 hcalls'
          have hgoes : ∀ d e, Outcome.received m none ≠ .received d (some e) := by
            intro d e he
            cases he
          exact Ran.cons hrest hgoes hxs call
    cases call with
    | recvInto dst => exact hrecv dst rfl
    | recv => exact hrecv [] rfl
    | header =>
      obtain ⟨c₁, hxs, hheard⟩ := h.header a xs
      have hcall : s.call a xs .header = ((pumpUntil (Stream.pump a) lookHeader s xs).1,
          (pumpUntil (Stream.pump a) lookHeader s xs).2.map .header) := by
        rw [Stream.call, Stream.getHeader, if_neg hopen]
      cases hr : (pumpUntil (Stream.pump a) lookHeader s xs).2 with
      | none =>
        rw [hr] at hcall
        exact ran_pending hcall
      | some r =>
        rw [hr] at hcall
        rw [run_cons calls hcall]
        have hrest := ih (hheard r hr) (pumpUntil (Stream.pump a) lookHeader s xs).1.2 hcalls'
        have hgoes : ∀ d e, Outcome.header r ≠ .received d (some e) := by
          intro d e he
          cases he
        exact Ran.cons ((List.append_nil ms).symm ▸ hrest) hgoes hxs _
    | close => exact absurd rfl (hcalls _ List.mem_cons_self)

/-! ## What the end says -/

theorem mem_of_responseBlock {block : List Field} (h : responseBlock c = some block) :
    ∃ endStream slab, .event (.headers block endStream) slab ∈ c := by
  obtain ⟨x, hx, hheader⟩ := List.exists_of_findSome?_eq_some h
  cases x with
  | pushPromise | failed err => cases hheader
  | event e slab =>
    cases e with
    | headers fields endStream =>
      obtain rfl := Option.some.inj hheader
      exact ⟨endStream, slab, hx⟩
    | _ => cases hheader

/-- A stream that came to `io.EOF` on what the HTTP/2 layer can deliver. -/
theorem Hears.declared_iff (h : s.Hears view max c ms) (hsees : Sees view)
    (hvalid : ∀ x ∈ c, x.Valid) (hstuck : Stuck .eof s.rx) :
    Declared max c ms ↔ ∃ block, responseBlock c = some block ∧ Numeric block := by
  obtain ⟨herr, hdone, hok, hwhole⟩ := h.2.ended hstuck
  constructor
  · intro hdeclared
    obtain ⟨block, hblock, hstatus⟩ := hdeclared.ok
    refine ⟨block, hblock, ascii "200", hstatus, ?_⟩
    decide +kernel
  · rintro ⟨block, hblock, hnumeric⟩
    have hunbroken := h.2.unbroken herr fun _ => hok
    obtain ⟨hhttp, x, v, hlast, hfound, hzero, hend⟩ := h.2.closing hdone hok
    obtain ⟨endStream, slab, hmem⟩ := mem_of_responseBlock hblock
    have hseen : s.rx.httpStatus = pseudoStatus block := by
      rw [h.2.http, hblock]
      exact hsees.pseudoStatus_eq (hvalid _ hmem)
    -- a status that is a number is 200 if it is not refused
    have h200 : s.rx.httpStatus = 200 :=
      hhttp.resolve_left (hseen ▸ pseudoStatus_ne_zero hnumeric)
    refine ⟨hunbroken, ⟨block, hblock, findField_of_pseudoStatus (hseen ▸ h200)⟩,
      ⟨x, v, hlast, ?_, hsees.found hfound, hzero⟩, hwhole⟩
    rcases hend h200 with htrailers | hended
    · have hx := List.mem_of_getLast? hlast
      cases x with
      | pushPromise | failed err => cases htrailers
      | event e slab =>
        cases e with
        | trailers fields flag => exact hvalid _ hx
        | _ => cases htrailers
    · exact hended

/-! ## Unary calls -/

theorem recvInto_eq_recv (s : Stream) (dst : Bytes) (xs : List Incoming) :
    s.recvInto a dst xs = s.recv a xs := by
  simp only [Stream.recv, Stream.recvInto, List.take_zero]

theorem recv_error {d : Bytes}
    (h : s.recv a xs = (sx, some (d, some e))) : d = [] := by
  rw [Stream.recv, Stream.recvInto] at h
  split_ifs at h
  · cases h
    rfl
  · obtain ⟨r, -, hr⟩ := Option.bind_eq_some_iff.mp (congrArg Prod.snd h)
    rcases r with e | _ | m <;> cases hr
    rfl

/-- A unary call succeeds when the stream gives one message and then `io.EOF`. -/
theorem invokeInto_eq_ok {method : Bytes} {refusal : Option Bytes} {borrowMD : Bool}
    {room : Option (ℕ × ℕ)} {dst resp : Bytes} :
    invokeInto a method refusal max borrowMD room dst xs = some (resp, none) ↔
      method.head? = some 0x2f ∧ refusal = none ∧
        (after a max room xs [.recv, .recv] true borrowMD).2 =
          [.received resp none, .received [] (some .eof)] := by
  unfold invokeInto after
  by_cases hmethod : method.head? = some 0x2f
  swap
  · simp [hmethod]
  rw [if_neg (not_not.mpr hmethod)]
  cases refusal with
  | some text => simp
  | none =>
    rw [recvInto_eq_recv]
    simp only [hmethod, true_and]
    rcases hfirst : (opened max true borrowMD room).recv a xs with ⟨sx, _ | ⟨m, _ | err⟩⟩
    · simp [Stream.run, Stream.call, hfirst]
    · -- the first message has come
      rw [run_cons [.recv] (by rw [Stream.call, hfirst]; rfl)]
      rcases hsecond : sx.1.recv a sx.2 with ⟨sx', _ | ⟨m', _ | err⟩⟩
      · simp [Stream.run, Stream.call, hsecond]
      · simp [Stream.run, Stream.call, hsecond]
      · obtain rfl := recv_error hsecond
        by_cases heof : err = .eof
        · simp [Stream.run, Stream.call, hsecond, heof]
        · simp [Stream.run, Stream.call, hsecond, heof]
    · rw [run_cons [.recv] (by rw [Stream.call, hfirst]; rfl)]
      dsimp only
      split_ifs <;> simp

/-- Whatever the HTTP/2 layer delivers, or drops, and whatever calls are made: a success that `Recv`
reports was declared by the server, in what the calls have consumed, exactly when a header block
was among it whose `:status` is three digits other than 000; after an error `Recv` returns nothing
else; and a unary call succeeds when there is one message and then success. -/
theorem success_declared_iff (a : Allocator) (max : ℤ) (discardMD borrowMD : Bool)
    (room : Option (ℕ × ℕ)) (xs : List Incoming) (calls : List Call)
    (hvalid : ∀ x ∈ xs, x.Valid) (hcalls : ∀ call ∈ calls, call ≠ .close) :
    (∀ d, .received d (some .eof) ∈ (after a max room xs calls discardMD borrowMD).2 →
      ∃ consumed, xs = consumed ++ (after a max room xs calls discardMD borrowMD).1.2 ∧
        (Declared max consumed
            ((after a max room xs calls discardMD borrowMD).2.filterMap Outcome.message?) ↔
          ∃ block, responseBlock consumed = some block ∧ Numeric block)) ∧
      (after a max room xs calls discardMD borrowMD).2.Pairwise Outcome.Sticks ∧
      (∀ d e, .received d (some e) ∈ (after a max room xs calls discardMD borrowMD).2 →
        (after a max room xs calls discardMD borrowMD).2.length = calls.length) ∧
      ∀ method refusal dst resp,
        invokeInto a method refusal max borrowMD room dst xs = some (resp, none) ↔
          method.head? = some 0x2f ∧ refusal = none ∧
            (after a max room xs [.recv, .recv] true borrowMD).2 =
              [.received resp none, .received [] (some .eof)] := by
  have hstart : (opened max discardMD borrowMD room).Hears
      (opened max discardMD borrowMD room).view max [] [] := ⟨rfl, heard_start _ max⟩
  have hran := hstart.run a xs hcalls
  refine ⟨?_, hran.sticky, hran.returned, fun _ _ _ _ => invokeInto_eq_ok⟩
  intro d hd
  obtain ⟨c, hxs, hheard, hstuck⟩ := hran.ended d hd
  have hbefore : ∀ x ∈ c, x.Valid := by
    intro x hx
    exact hvalid x (hxs ▸ List.mem_append_left _ hx)
  exact ⟨c, hxs, hheard.declared_iff (sees_view _) hbefore hstuck⟩

/-- One message and a status of 0. -/
def oneMessage : List Incoming :=
  [.event (.headers responseHeader false) none, .event (.data (frame [1, 2]) false) none,
    .event (.trailers (successBehind 0) true) none]

theorem success_declared_iff_one :
    (after Growth.doubling 0 none oneMessage [.recv, .recv] true false).2 =
        [.received [1, 2] none, .received [] (some .eof)] ∧
      (Declared 0 oneMessage [[1, 2]] ↔
        ∃ block, responseBlock oneMessage = some block ∧ Numeric block) := by
  have houts : (after Growth.doubling 0 none oneMessage [.recv, .recv] true false).2 =
      [.received [1, 2] none, .received [] (some .eof)] := by decide +kernel
  have hrest : (after Growth.doubling 0 none oneMessage [.recv, .recv] true false).1.2 = [] := by
    decide +kernel
  obtain ⟨consumed, hall, hiff⟩ := (success_declared_iff Growth.doubling 0 true false none oneMessage
    [.recv, .recv] (by decide +kernel) (by decide)).1 [] (by rw [houts]; simp)
  rw [hrest, List.append_nil] at hall
  rw [houts, ← hall] at hiff
  exact ⟨houts, hiff⟩

/-- A response that has no status code, but a `grpc-status` of 0. -/
def wordStatus : List Incoming :=
  [.event (.headers [⟨statusName, ascii "abc", Header.indexIncremental⟩,
    ⟨grpcStatusName, ascii "0", Header.indexIncremental⟩] true) none]

/-- The HTTP/2 layer accepts it and `Recv` reports success, though the status is not 200. -/
theorem success_undeclared :
    (∀ x ∈ wordStatus, x.Valid) ∧
      (after Growth.doubling 0 none wordStatus [.recv] true false).2 = [.received [] (some .eof)] ∧
      ¬ Declared 0 wordStatus [] := by
  refine ⟨by decide +kernel, by decide +kernel, ?_⟩
  intro hdeclared
  obtain ⟨block, hblock, hstatus⟩ := hdeclared.ok
  obtain rfl := Option.some.inj hblock
  revert hstatus
  decide

end Stream

end Grpc
