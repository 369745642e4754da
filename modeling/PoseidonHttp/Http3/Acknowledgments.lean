import PoseidonHttp.Lib.Transition
import PoseidonHttp.Http3.Exchange
import PoseidonHttp.Qpack.Decoder

/-!
# Acknowledging QPACK inserts

`control.go` and `client.go`: the reader applies the server's encoder stream to the table under one
lock and then reports the new inserts under another (`readQPACKEncoder`, `qpackAckInserts`); every
request decodes its sections under the first and acknowledges them under the second
(`decodeBlocking`, `qpackSectionAck`). Between the two locks anything may happen. Both ways raise
what the server takes for received, and neither may raise it past the table.

* `never_overacknowledges`: in every interleaving the server's account of the decoder stream is the
  client's Known Received Count, which stays within the insert count and meets it between passes.
* `readQPACKEncoder_insertCount`: a pass over the bytes of the stream inserts what the model of the
  counters says, as long as the 64-bit counter of the table does not wrap.
-/

namespace Http3.Acks

open Header (Bytes)
open Transition (System)
open Function (update update_of_ne update_self update_apply)

/-! ## The system -/

/-- What is written to the decoder stream. -/
inductive Sent where
  /-- Insert Count Increment. -/
  | increment (n : ℕ)
  /-- An instruction about the stream of a request. -/
  | request (id : ℕ) (i : Instruction)
  deriving DecidableEq

/-- Where the reader is. -/
inductive Reader where
  /-- Between two passes. -/
  | between
  /-- Past the table lock, about to call `qpackAckInserts`. -/
  | acking (insertCount : ℕ)
  deriving DecidableEq

structure Request where
  /-- The section that is decoded and not yet acknowledged. -/
  pending : Option ℕ := none
  /-- The Required Insert Counts of the sections that were decoded and have one. -/
  sections : List ℕ := []
  refDynamic : Bool := false
  ended : Bool := false
  deriving DecidableEq

structure Conn where
  insertCount : ℕ := 0
  knownReceivedCount : ℕ := 0
  /-- The decoder stream. -/
  sent : List Sent := []
  reader : Reader := .between
  /-- A connection error was raised. -/
  failed : Bool := false
  requests : ℕ → Request := fun _ => {}

namespace Conn

def set (s : Conn) (id : ℕ) (r : Request) : Conn :=
  { s with requests := update s.requests id r }

/-- `readQPACKEncoder` up to where it leaves the table lock and looks at what the parser said: so
many entries are new, an instruction was malformed, so many bytes are left of a partial one. -/
def receive (s : Conn) (qpackEncBufMax inserts : ℕ) (malformed : Bool) (tail : ℕ) : Conn :=
  let after := s.insertCount + inserts
  if malformed then { s with insertCount := after, failed := true }
  else if qpackEncBufMax < tail then { s with insertCount := after, failed := true }
  else if s.insertCount < after then { s with insertCount := after, reader := .acking after }
  else { s with insertCount := after }

def qpackAckInserts (s : Conn) (insertCount : ℕ) : Conn :=
  if s.knownReceivedCount < insertCount then
    { s with
      sent := s.sent ++ [.increment (insertCount - s.knownReceivedCount)]
      knownReceivedCount := insertCount }
  else s

def qpackSectionAck (s : Conn) (id ric : ℕ) : Conn :=
  { s with
    knownReceivedCount := if s.knownReceivedCount < ric then ric else s.knownReceivedCount
    sent := s.sent ++ [.request id (.sectionAck ric)] }

def qpackCancelStream (s : Conn) (id : ℕ) : Conn :=
  { s with sent := s.sent ++ [.request id .streamCancellation] }

end Conn

inductive Op where
  | receive (inserts : ℕ) (malformed : Bool) (tail : ℕ)
  | ackInserts
  /-- A request decodes a section under the read lock, up to `ackDynamicSection`. -/
  | decode (id ric : ℕ)
  /-- It acknowledges the section. -/
  | ackSection (id : ℕ)
  /-- It fails: in decoding, in waiting for inserts, or anywhere else. -/
  | fail (id : ℕ) (closes : Bool)
  | succeed (id : ℕ)
  deriving DecidableEq

def step (qpackEncBufMax : ℕ) (s : Conn) : Op → Option Conn
  | .receive inserts malformed tail =>
    if s.reader = .between then some (s.receive qpackEncBufMax inserts malformed tail) else none
  | .ackInserts =>
    match s.reader with
    | .between => none
    | .acking insertCount => some { s.qpackAckInserts insertCount with reader := .between }
  | .decode id ric =>
    let r := s.requests id
    -- behind the table it waits, and takes the lock again later
    if r.pending.isSome ∨ r.ended ∨ s.insertCount < ric then none
    else if ric = 0 then some s
    else some (s.set id { r with pending := some ric, sections := r.sections ++ [ric] })
  | .ackSection id =>
    let r := s.requests id
    match r.pending with
    | none => none
    | some ric => some ((s.qpackSectionAck id ric).set id { r with pending := none, refDynamic := true })
  | .fail id closes =>
    let r := s.requests id
    if r.pending.isSome ∨ r.ended then none
    else
      let s := if r.refDynamic then s.qpackCancelStream id else s
      some ({ s with failed := s.failed || closes }.set id { r with ended := true })
  | .succeed id =>
    let r := s.requests id
    if r.pending.isSome ∨ r.ended then none else some (s.set id { r with ended := true })

def system (qpackEncBufMax : ℕ) : System Conn Op := ⟨{}, step qpackEncBufMax⟩

/-! ## The server's account -/

/-- What the server knows of its sections and of what was received. -/
structure Account where
  known : ℕ := 0
  /-- The sections of each stream that are not acknowledged yet, oldest first. -/
  unacknowledged : ℕ → List ℕ

namespace Account

/-- One instruction, by the rules of RFC 9204. -/
def apply (v : Account) : Sent → Option Account
  | .increment n => if n = 0 then none else some { v with known := v.known + n }
  | .request id (.sectionAck _) =>
    match v.unacknowledged id with
    | [] => none
    | ric :: rest =>
      some ⟨max v.known ric, update v.unacknowledged id rest⟩
  | .request id .streamCancellation =>
    some { v with unacknowledged := update v.unacknowledged id [] }

/-- The whole decoder stream, in its order. -/
def replay (v : Account) (sent : List Sent) : Option Account := sent.foldlM apply v

end Account

/-- What a server makes of the decoder stream that sent the decoded sections, and others behind them
on each stream. -/
def Conn.account (s : Conn) (behind : ℕ → List ℕ) : Option Account :=
  Account.replay { unacknowledged := fun id => (s.requests id).sections ++ behind id } s.sent

/-- The sections of a stream that were acknowledged, in order. -/
def acknowledged (id : ℕ) (sent : List Sent) : List ℕ :=
  sent.filterMap fun
    | .request j (.sectionAck ric) => if j = id then some ric else none
    | _ => none

/-! ## The invariant -/

structure Inv (s : Conn) : Prop where
  /-- The table covers what is known and what is about to be acknowledged. -/
  known_le : s.knownReceivedCount ≤ s.insertCount
  pending : ∀ id ric, (s.requests id).pending = some ric →
    ric ≤ s.insertCount ∧ (s.requests id).ended = false
  reader : ∀ n, s.reader = .acking n → n = s.insertCount
  between : s.reader = .between → s.failed = false → s.knownReceivedCount = s.insertCount
  /-- The sections of a running request wait for their acknowledgment, and nothing else does. -/
  account : ∀ behind, ∃ v, s.account behind = some v ∧ v.known = s.knownReceivedCount ∧
    ∀ id, (s.requests id).ended = false →
      v.unacknowledged id = (s.requests id).pending.toList ++ behind id
  increments : ∀ n, .increment n ∈ s.sent → 1 ≤ n
  acks : ∀ id, acknowledged id s.sent ++ (s.requests id).pending.toList = (s.requests id).sections

section Steps

variable {s s' : Conn} {id ric n : ℕ} {behind : ℕ → List ℕ}

theorem account_append {v v' : Account} {i : Sent} (h : s.account behind = some v)
    (hi : v.apply i = some v') : { s with sent := s.sent ++ [i] }.account behind = some v' := by
  have hreplay : Account.replay { unacknowledged := fun id => (s.requests id).sections ++ behind id }
      s.sent = some v := h
  show Account.replay _ (s.sent ++ [i]) = some v'
  rw [Account.replay, List.foldlM_append, ← Account.replay, hreplay]
  simp [hi]

theorem acknowledged_append (id : ℕ) (sent : List Sent) (i : Sent) :
    acknowledged id (sent ++ [i]) = acknowledged id sent ++ acknowledged id [i] :=
  List.filterMap_append

theorem Inv.increments_append (h : Inv s) {i : Sent} (hi : ∀ n, i = .increment n → 1 ≤ n) (n : ℕ)
    (hn : .increment n ∈ s.sent ++ [i]) : 1 ≤ n := by
  rcases List.mem_append.mp hn with hn | hn
  · exact h.increments n hn
  · exact hi n (List.mem_singleton.mp hn).symm

theorem Inv.receive (h : Inv s) (hreader : s.reader = .between) (max inserts : ℕ) (malformed : Bool)
    (tail : ℕ) : Inv (s.receive max inserts malformed tail) := by
  have hknown := h.known_le
  -- only the table grows, so all that is about the streams stays
  have hgrown (s' : Conn) (hcount : s'.insertCount = s.insertCount + inserts)
      (hsame : s'.knownReceivedCount = s.knownReceivedCount ∧ s'.sent = s.sent ∧
        s'.requests = s.requests)
      (hreader : ∀ n, s'.reader = .acking n → n = s'.insertCount)
      (hbetween : s'.reader = .between → s'.failed = false → s'.knownReceivedCount = s'.insertCount) :
      Inv s' := by
    obtain ⟨hk, hsent, hreqs⟩ := hsame
    refine ⟨by omega, ?_, hreader, hbetween, ?_, ?_, ?_⟩
    · intro id ric hp
      rw [hreqs] at hp ⊢
      have := h.pending id ric hp
      exact ⟨by omega, this.2⟩
    · intro behind
      rw [Conn.account, hsent, hreqs, hk]
      exact h.account behind
    · rw [hsent]
      exact h.increments
    · rw [hsent, hreqs]
      exact h.acks
  have hidle (m n : ℕ) (hn : s.reader = .acking n) : n = m := by
    rw [hreader] at hn
    cases hn
  unfold Conn.receive
  dsimp only
  split_ifs
  · exact hgrown _ rfl ⟨rfl, rfl, rfl⟩ (hidle _) nofun
  · exact hgrown _ rfl ⟨rfl, rfl, rfl⟩ (hidle _) nofun
  · refine hgrown _ rfl ⟨rfl, rfl, rfl⟩ ?_ nofun
    intro n hn
    exact (Reader.acking.inj hn).symm
  · refine hgrown _ rfl ⟨rfl, rfl, rfl⟩ (hidle _) ?_
    intro _ hf
    have := h.between hreader hf
    dsimp only
    omega

/-- The increment reports exactly what the server does not know yet. -/
theorem Inv.ackInserts (h : Inv s) (hreader : s.reader = .acking n) :
    Inv { s.qpackAckInserts n with reader := .between } := by
  obtain rfl := h.reader n hreader
  have hknown := h.known_le
  unfold Conn.qpackAckInserts
  split_ifs
  · refine ⟨Nat.le_refl _, h.pending, nofun, fun _ _ => rfl, ?_, h.increments_append ?_, ?_⟩
    · intro behind
      obtain ⟨v, haccount, hv, hunack⟩ := h.account behind
      have hadd : v.apply (.increment (s.insertCount - s.knownReceivedCount)) =
          some { v with known := s.insertCount } := by
        rw [Account.apply, if_neg (by omega), hv, Nat.add_sub_cancel' hknown]
      exact ⟨_, account_append haccount hadd, rfl, hunack⟩
    · intro n hn
      obtain rfl := Sent.increment.inj hn
      omega
    · intro id
      rw [acknowledged_append, show acknowledged id [Sent.increment _] = [] from rfl, List.append_nil]
      exact h.acks id
  · exact ⟨hknown, h.pending, nofun, fun _ _ => by dsimp only; omega, h.account, h.increments,
      h.acks⟩

/-- What holds of the other requests when one of them changes. -/
theorem Conn.requests_set (s : Conn) (id : ℕ) (r : Request) (j : ℕ) :
    (s.set id r).requests j = if j = id then r else s.requests j :=
  update_apply s.requests id r j

theorem Conn.account_set (s : Conn) (id : ℕ) (r : Request) {behind behind' : ℕ → List ℕ}
    (hsame : r.sections ++ behind id = (s.requests id).sections ++ behind' id)
    (hother : ∀ j, j ≠ id → behind j = behind' j) :
    (s.set id r).account behind = s.account behind' := by
  have hstart : (fun j => ((s.set id r).requests j).sections ++ behind j) =
      fun j => (s.requests j).sections ++ behind' j := by
    funext j
    rw [Conn.requests_set]
    split_ifs with hj
    · rw [hj, hsame]
    · rw [hother j hj]
  rw [Conn.account, hstart]
  rfl

theorem Inv.decode (h : Inv s) (hpending : (s.requests id).pending = none)
    (hended : (s.requests id).ended = false) (hric : ric ≤ s.insertCount) :
    Inv (s.set id { s.requests id with
      pending := some ric, sections := (s.requests id).sections ++ [ric] }) := by
  refine ⟨h.known_le, ?_, h.reader, h.between, ?_, h.increments, ?_⟩
  · intro j ric' hp
    rw [Conn.requests_set] at hp ⊢
    split_ifs at hp ⊢
    · exact ⟨Option.some.inj hp ▸ hric, hended⟩
    · exact h.pending j ric' hp
  · intro behind
    -- the new section is the first of those that were behind
    obtain ⟨v, haccount, hv, hunack⟩ := h.account (update behind id (ric :: behind id))
    refine ⟨v, ?_, hv, ?_⟩
    · rw [← haccount]
      refine Conn.account_set s id _ ?_ ?_
      · rw [update_self, List.append_assoc, List.singleton_append]
      · intro j hj
        rw [update_of_ne hj]
    · intro j hj
      rw [Conn.requests_set] at hj ⊢
      split_ifs at hj ⊢ with hid
      · rw [hid, hunack id hended, hpending, update_self]
        rfl
      · rw [hunack j hj, update_of_ne hid]
  · intro j
    rw [Conn.requests_set]
    have hacked := h.acks j
    split_ifs with hj
    · rw [hj, hpending] at hacked
      rw [hj, ← hacked, Option.toList_none, List.append_nil]
      rfl
    · exact hacked

/-- An acknowledgment is about the oldest section that waits for one. -/
theorem Inv.ackSection (h : Inv s) (hpending : (s.requests id).pending = some ric) :
    Inv ((s.qpackSectionAck id ric).set id { s.requests id with pending := none, refDynamic := true }) := by
  obtain ⟨hric, hended⟩ := h.pending id ric hpending
  have hknown := h.known_le
  refine ⟨?_, ?_, h.reader, ?_, ?_, h.increments_append nofun, ?_⟩
  · show (if s.knownReceivedCount < ric then ric else s.knownReceivedCount) ≤ s.insertCount
    split_ifs <;> assumption
  · intro j ric' hp
    rw [Conn.requests_set] at hp ⊢
    split_ifs at hp ⊢
    exact h.pending j ric' hp
  · intro hreader hfailed
    have heq := h.between hreader hfailed
    show (if s.knownReceivedCount < ric then ric else s.knownReceivedCount) = s.insertCount
    rw [if_neg (by omega)]
    exact heq
  · intro behind
    obtain ⟨v, haccount, hv, hunack⟩ := h.account behind
    have holdest : v.unacknowledged id = ric :: behind id := by
      rw [hunack id hended, hpending]
      rfl
    have hack : v.apply (.request id (.sectionAck ric)) =
        some ⟨max v.known ric, update v.unacknowledged id (behind id)⟩ := by
      rw [Account.apply, holdest]
    refine ⟨⟨max v.known ric, update v.unacknowledged id (behind id)⟩, ?_, ?_, ?_⟩
    · rw [← account_append haccount hack]
      exact Conn.account_set (s.qpackSectionAck id ric) id _ rfl fun _ _ => rfl
    · show max v.known ric = if s.knownReceivedCount < ric then ric else s.knownReceivedCount
      split_ifs <;> omega
    · intro j hj
      rw [Conn.requests_set] at hj ⊢
      dsimp only
      rw [update_apply]
      split_ifs at hj ⊢ with hid
      · rw [hid]
        rfl
      · exact hunack j hj
  · intro j
    show acknowledged j (s.sent ++ [_]) ++ _ = _
    have hacked := h.acks j
    rw [acknowledged_append, Conn.requests_set]
    split_ifs with hj
    · rw [hj, hpending] at hacked
      rw [hj, ← hacked, Option.toList_none]
      simp [acknowledged]
    · have hother : acknowledged j [.request id (.sectionAck ric)] = [] := by
        simp [acknowledged, Ne.symm hj]
      rw [hother, List.append_nil]
      exact hacked

/-- A request that ends leaves nothing that waits. -/
theorem Inv.finish (h : Inv s) (hpending : (s.requests id).pending = none) :
    Inv (s.set id { s.requests id with ended := true }) := by
  refine ⟨h.known_le, ?_, h.reader, h.between, ?_, h.increments, ?_⟩
  · intro j ric hp
    rw [Conn.requests_set] at hp ⊢
    split_ifs at hp ⊢
    · rw [hpending] at hp
      cases hp
    · exact h.pending j ric hp
  · intro behind
    obtain ⟨v, haccount, hv, hunack⟩ := h.account behind
    refine ⟨v, ?_, hv, ?_⟩
    · rw [← haccount]
      exact Conn.account_set s id _ rfl fun _ _ => rfl
    · intro j hj
      rw [Conn.requests_set] at hj ⊢
      split_ifs at hj ⊢
      exact hunack j hj
  · intro j
    rw [Conn.requests_set]
    split_ifs with hj
    · rw [hj]
      exact h.acks id
    · exact h.acks j

/-- A cancellation takes back the sections of a stream, not what is known. -/
theorem Inv.cancel (h : Inv s) (hended : (s.requests id).ended = true) : Inv (s.qpackCancelStream id) := by
  refine ⟨h.known_le, h.pending, h.reader, h.between, ?_, h.increments_append nofun, ?_⟩
  · intro behind
    obtain ⟨v, haccount, hv, hunack⟩ := h.account behind
    refine ⟨{ v with unacknowledged := update v.unacknowledged id [] },
      account_append haccount rfl, hv, ?_⟩
    intro j hj
    have hid : j ≠ id := by
      rintro rfl
      rw [show ((s.qpackCancelStream j).requests j).ended = (s.requests j).ended from rfl, hended] at hj
      cases hj
    dsimp only
    rw [update_of_ne hid]
    exact hunack j hj
  · intro j
    show acknowledged j (s.sent ++ [_]) ++ _ = _
    rw [acknowledged_append, show acknowledged j [.request id .streamCancellation] = [] from rfl,
      List.append_nil]
    exact h.acks j

theorem Inv.close (h : Inv s) (closes : Bool) : Inv { s with failed := s.failed || closes } := by
  refine { h with between := ?_ }
  intro hreader hfailed
  exact h.between hreader (Bool.or_eq_false_iff.mp hfailed).1

theorem Inv.step {qpackEncBufMax : ℕ} {op : Op} (h : Inv s) (hstep : step qpackEncBufMax s op = some s') :
    Inv s' := by
  cases op with
  | receive inserts malformed tail =>
    rw [Acks.step] at hstep
    split_ifs at hstep with hreader
    obtain rfl := Option.some.inj hstep
    exact h.receive hreader qpackEncBufMax inserts malformed tail
  | ackInserts =>
    rw [Acks.step] at hstep
    split at hstep
    · cases hstep
    · rename_i hreader
      obtain rfl := Option.some.inj hstep
      exact h.ackInserts hreader
  | decode id ric =>
    rw [Acks.step] at hstep
    split_ifs at hstep with hblocked hzero
    · obtain rfl := Option.some.inj hstep
      exact h
    · obtain rfl := Option.some.inj hstep
      simp only [not_or, Option.not_isSome_iff_eq_none, Nat.not_lt] at hblocked
      exact h.decode hblocked.1 (Bool.not_eq_true _ ▸ hblocked.2.1) hblocked.2.2
  | ackSection id =>
    rw [Acks.step] at hstep
    split at hstep
    · cases hstep
    · rename_i hpending
      obtain rfl := Option.some.inj hstep
      exact h.ackSection hpending
  | fail id closes =>
    rw [Acks.step] at hstep
    by_cases hbusy : (s.requests id).pending.isSome = true ∨ (s.requests id).ended = true
    · rw [if_pos hbusy] at hstep
      cases hstep
    rw [if_neg hbusy] at hstep
    obtain rfl := Option.some.inj hstep
    simp only [not_or, Option.not_isSome_iff_eq_none] at hbusy
    have hfinish := h.finish hbusy.1
    split_ifs
    · have hended : ((s.set id { s.requests id with ended := true }).requests id).ended = true := by
        rw [Conn.requests_set, if_pos rfl]
      exact (hfinish.cancel hended).close closes
    · exact hfinish.close closes
  | succeed id =>
    rw [Acks.step] at hstep
    split_ifs at hstep with hbusy
    obtain rfl := Option.some.inj hstep
    simp only [not_or, Option.not_isSome_iff_eq_none] at hbusy
    exact h.finish hbusy.1

theorem inv_init : Inv {} := by
  refine ⟨Nat.le_refl _, nofun, nofun, fun _ _ => rfl, ?_, nofun, fun _ => rfl⟩
  intro behind
  exact ⟨_, rfl, rfl, fun _ _ => rfl⟩

end Steps

/-! ## The result -/

/-- In every interleaving of the reader and any number of requests: what the server makes of the
decoder stream is the Known Received Count of the client, whatever other sections it has sent; it
stays within the table; no increment is empty; the sections of each stream are acknowledged once,
in their order, each right after it was decoded; and between two passes the server knows the table. -/
theorem never_overacknowledges (qpackEncBufMax : ℕ) {s : Conn} (h : (system qpackEncBufMax).Reachable s) :
    (∀ behind, ∃ v, s.account behind = some v ∧ v.known = s.knownReceivedCount) ∧
    s.knownReceivedCount ≤ s.insertCount ∧
    (∀ n, .increment n ∈ s.sent → 1 ≤ n) ∧
    (∀ id, acknowledged id s.sent ++ (s.requests id).pending.toList = (s.requests id).sections) ∧
    (s.reader = .between → s.failed = false → s.knownReceivedCount = s.insertCount) := by
  have hinv : Inv s := by
    refine h.invariant inv_init ?_
    intro s op s' hs _ hstep
    exact hs.step hstep
  refine ⟨?_, hinv.known_le, hinv.increments, hinv.acks, hinv.between⟩
  intro behind
  obtain ⟨v, haccount, hv, -⟩ := hinv.account behind
  exact ⟨v, haccount, hv⟩

/-- A section is acknowledged between the two locks of the reader: the increment that follows
reports only the other insert. -/
def overtakingRun : List Op := [.receive 2 false 0, .decode 0 1, .ackSection 0, .ackInserts]

theorem never_overacknowledges_overtaking :
    ∃ s, (system 100).run (system 100).init overtakingRun = some s ∧
      s.sent = [.request 0 (.sectionAck 1), .increment 1] ∧
      (∀ behind, ∃ v, s.account behind = some v ∧ v.known = s.knownReceivedCount) ∧
      s.knownReceivedCount ≤ s.insertCount := by
  apply System.exists_run_known overtakingRun
  · intro s hs
    have hall := never_overacknowledges 100 (System.reachable_of_run hs)
    exact ⟨hall.1, hall.2.1⟩
  · decide +kernel

/-! ## The bytes of the encoder stream -/

open Qpack (DynamicTable)

/-- The table and what has come of the encoder stream and is not applied. -/
structure EncoderStream where
  qpackDyn : DynamicTable
  qpackEncBuf : Bytes := []

/-- `readQPACKEncoder` over the bytes that have arrived, up to `qpackAckInserts`; `none` where a slice
is out of bounds. -/
def readQPACKEncoder (s : Conn) (e : EncoderStream) (qpackEncBufMax : ℕ) (data : Bytes) :
    Option (Conn × EncoderStream) :=
  let buf := e.qpackEncBuf ++ data
  if buf.length = 0 then some (s, e)
  else
    match e.qpackDyn.parseEncoderInstructions buf with
    | none => none
    | some (n, dyn, perr) =>
      let inserts := dyn.insertCount - e.qpackDyn.insertCount
      some (s.receive qpackEncBufMax inserts perr.isSome (buf.drop n).length, ⟨dyn, buf.drop n⟩)

theorem Conn.insertCount_receive (s : Conn) (qpackEncBufMax inserts : ℕ) (malformed : Bool) (tail : ℕ) :
    (s.receive qpackEncBufMax inserts malformed tail).insertCount = s.insertCount + inserts := by
  unfold Conn.receive
  dsimp only
  split_ifs <;> rfl

/-- The counters follow the table, while the 64-bit counter of the table does not wrap. -/
theorem readQPACKEncoder_insertCount {s s' : Conn} {e e' : EncoderStream} {qpackEncBufMax : ℕ}
    {data : Bytes} (hs : s.insertCount = e.qpackDyn.insertCount)
    (hroom : e.qpackDyn.insertCount + (e.qpackEncBuf ++ data).length < Qpack.u64)
    (h : readQPACKEncoder s e qpackEncBufMax data = some (s', e')) :
    s'.insertCount = e'.qpackDyn.insertCount := by
  unfold readQPACKEncoder at h
  dsimp only at h
  split_ifs at h
  · obtain ⟨rfl, rfl⟩ := Prod.mk.inj (Option.some.inj h)
    exact hs
  cases hparse : e.qpackDyn.parseEncoderInstructions (e.qpackEncBuf ++ data) with
  | none =>
    rw [hparse] at h
    cases h
  | some out =>
    obtain ⟨n, dyn, perr⟩ := out
    rw [hparse] at h
    obtain ⟨rfl, rfl⟩ := Prod.mk.inj (Option.some.inj h)
    have hcount := (DynamicTable.insertCount_parse hroom hparse).1
    rw [Conn.insertCount_receive, hs]
    exact Nat.add_sub_cancel' hcount

/-- A section that was decoded has its Required Insert Count within the table. -/
theorem ric_le_of_decoded {σ E : Type} {emit : Qpack.Emit σ E} {st st' : σ} {payload : Bytes}
    {dyn : DynamicTable} (h : Qpack.Decoder.decodeFieldSection emit st payload (some dyn) = (st', none)) :
    ∃ base ric n, Qpack.Decoder.parsePrefix payload (some dyn) = .ok (base, ric, n) ∧
      ric ≤ dyn.insertCount := by
  unfold Qpack.Decoder.decodeFieldSection at h
  cases hhead : Qpack.Decoder.parsePrefix payload (some dyn) with
  | error e =>
    rw [hhead] at h
    cases (Prod.mk.inj h).2
  | ok out =>
    obtain ⟨base, ric, n⟩ := out
    rw [hhead] at h
    dsimp only at h
    split_ifs at h with hbehind
    · cases (Prod.mk.inj h).2
    · refine ⟨base, ric, n, rfl, ?_⟩
      -- a section without references needs nothing of the table
      rcases Nat.eq_zero_or_pos ric with rfl | hpos
      · exact Nat.zero_le _
      · simpa [Qpack.Decoder.behind, hpos] using hbehind

end Http3.Acks
