import PoseidonHttp.Quic.StreamLife
import Mathlib.Algebra.BigOperators.Group.Finset.Piecewise

/-!
# Receive credit of a connection

The connection limit moves with the bytes the application reads, and it is charged with the
bytes that arrive. The two meet when a stream has been read to the end of what arrived on it.
They do not when a stream is abandoned before: what was charged is then never read.

`Ledger` is a connection together with what its peer has counted: for every stream the highest
offset or final size of the frames that came. `Tidy` is the condition under which the two sides
stay together, and `Settled` the invariant.
-/

namespace Quic

open Header (Bytes)
open Transition

/-- A connection, the streams its peer has sent on, and how far. -/
structure Ledger where
  conn : Conn
  ids : List ℕ
  counted : ℕ → ℕ

namespace Ledger

open Quic.Conn (Op fairWire single_hears isUni modifyStream)

/-- What the peer has counted against the connection limit. -/
def total (l : Ledger) : ℕ := (l.ids.map l.counted).sum

/-- A frame of stream `id` came that reaches `stop`. -/
def note (l : Ledger) (id stop : ℕ) : Ledger :=
  { l with
    ids := if id ∈ l.ids then l.ids else l.ids ++ [id]
    counted := Function.update l.counted id (max (l.counted id) stop) }

/-- What a step adds to the count of the peer. -/
def count (l : Ledger) : Op → Ledger
  | .onStream id offset _ data => l.note id (offset + data.length)
  | .onResetStream id finalSize => l.note id finalSize
  | _ => l

def step (l : Ledger) (op : Op) : Option Ledger :=
  (l.conn.step op).map fun c => { l.count op with conn := c }

def system (params : Params) : System Ledger Op := ⟨⟨.new params, [], fun _ => 0⟩, step⟩

/-- Everything that came on the stream has been read. -/
def Read (s : Stream) : Prop := s.recv.base = s.recvHighest

instance (s : Stream) : Decidable (Read s) := inferInstanceAs (Decidable (_ = _))

/-- Every stream has been read to the end of what came, or is abandoned. -/
def Idle (l : Ledger) : Prop := ∀ s ∈ l.conn.streams, Read s ∨ s.recvReset = true

instance (l : Ledger) : Decidable l.Idle := inferInstanceAs (Decidable (∀ _ ∈ _, _))

/-- The limit the peer knows for a stream. -/
def streamLimit (l : Ledger) (id : ℕ) : ℕ :=
  ((l.conn.streams.find? fun s => s.id = id).map (·.recvMax)).getD defaultStreamRecvWindow

/-- The peer may use the identifier: a stream of ours it can answer on, or one of its own within
the limits we announced. -/
def Allowed (l : Ledger) (id : ℕ) : Prop :=
  if l.conn.ours id then isUni id = false ∧ l.conn.localStreamNotCreated id = false
  else if isUni id then id / 4 < l.conn.params.localMaxStreamsUni
  else l.conn.params.isServer = true ∧ id / 4 < l.conn.params.localMaxStreamsBidi

instance (l : Ledger) (id : ℕ) : Decidable (l.Allowed id) := by
  unfold Allowed
  infer_instance

/-- The peer keeps to the limits: of the identifier, of the stream and of the connection. -/
structure Keeps (l : Ledger) (id stop : ℕ) : Prop where
  allowed : l.Allowed id
  size : stop ≤ maxVarint
  stream : stop ≤ l.streamLimit id
  conn : (l.note id stop).total ≤ l.conn.connRecvMax

instance (l : Ledger) (id stop : ℕ) : Decidable (l.Keeps id stop) :=
  decidable_of_iff (l.Allowed id ∧ stop ≤ maxVarint ∧ stop ≤ l.streamLimit id ∧
    (l.note id stop).total ≤ l.conn.connRecvMax)
    ⟨fun h => ⟨h.1, h.2.1, h.2.2.1, h.2.2.2⟩, fun h => ⟨h.allowed, h.size, h.stream, h.conn⟩⟩

/-- A conformant peer: its frames keep to the limits, and a final size covers what it sent. -/
def Conformant (l : Ledger) : Op → Prop
  | .onStream id offset _ data => l.Keeps id (offset + data.length)
  | .onResetStream id finalSize => l.Keeps id finalSize ∧ l.counted id ≤ finalSize
  | _ => True

instance (l : Ledger) : (op : Op) → Decidable (l.Conformant op)
  | .onStream id offset _ data => inferInstanceAs (Decidable (l.Keeps id (offset + data.length)))
  | .onResetStream id finalSize =>
    inferInstanceAs (Decidable (l.Keeps id finalSize ∧ l.counted id ≤ finalSize))
  | .recovery _ | .crypto .. | .flushRetransmits .. | .openStream _ | .openUniStream _
  | .acceptUniStream | .acceptBidiStream | .send .. | .reset .. | .stopSending .. | .recv _
  | .onStopSending .. | .onMaxData _ | .onMaxStreamData .. | .onMaxStreams .. | .establish
  | .close | .changeConnectionID _ => isTrue trivial

/-- A stream is abandoned, by either side, only when everything that was sent on it has been
read, and nothing new comes for a stream that is abandoned or retired. -/
def Tidy (l : Ledger) : Op → Prop
  | .onStream id offset _ data =>
    match l.conn.lookup id with
    | some (_, s) => s.recvReset = true → offset + data.length ≤ s.recvHighest
    | none => ¬ l.conn.Late id ∧ (l.conn.ours id = true → offset + data.length ≤ l.counted id)
  | .onResetStream id finalSize =>
    match l.conn.lookup id with
    | some (_, s) => finalSize = s.recv.base
    | none => finalSize ≤ l.counted id
  | .stopSending h _ _ => ∀ s ∈ l.conn.streams[h]?, Read s
  | _ => True

instance (l : Ledger) : (op : Op) → Decidable (l.Tidy op)
  | .onStream id offset _ data => by
    dsimp only [Tidy]
    split <;> infer_instance
  | .onResetStream id finalSize => by
    dsimp only [Tidy]
    split <;> infer_instance
  | .stopSending h _ _ => inferInstanceAs (Decidable (∀ s ∈ l.conn.streams[h]?, Read s))
  | .recovery _ | .crypto .. | .flushRetransmits .. | .openStream _ | .openUniStream _
  | .acceptUniStream | .acceptBidiStream | .send .. | .reset .. | .recv _
  | .onStopSending .. | .onMaxData _ | .onMaxStreamData .. | .onMaxStreams .. | .establish
  | .close | .changeConnectionID _ => isTrue trivial

/-! ## The invariant -/

/-- The two sides agree on what was counted for a stream, which holds no more, and was read if
it is abandoned. -/
structure Even (counted : ℕ → ℕ) (s : Stream) : Prop where
  counted : counted s.id = s.recvHighest
  within : s.recv.Within s.recvHighest
  bounded : s.recvHighest ≤ maxVarint
  abandoned : s.recvReset = true → Read s

/-- The two sides are even on every stream, the application has read what was consumed, and the
limit is half a window ahead of it. -/
structure Settled (l : Ledger) : Prop where
  single : l.conn.Single
  nodup : l.ids.Nodup
  unseen : ∀ id, id ∉ l.ids → l.counted id = 0
  absent : ∀ id, id ∉ l.conn.streams.map Stream.id → l.counted id = 0
  consumed : l.conn.connRecvConsumed = (l.conn.streams.map fun s => s.recv.base).sum
  credit : l.conn.connRecvConsumed + defaultConnRecvWindow / 2 ≤ l.conn.connRecvMax
  even : ∀ s ∈ l.conn.streams, Even l.counted s

variable {c : Conn} {l : Ledger} {s t : Stream} {h id stop : ℕ}

theorem Settled.even_at (hl : l.Settled) (hs : l.conn.streams[h]? = some s) :
    Even l.counted s :=
  hl.even s (List.mem_of_getElem? hs)

/-- The peer has counted what the connection was charged with. -/
theorem Settled.total_eq (hl : l.Settled) : l.total = l.conn.connRecvTotal := by
  have hstreams : l.conn.streams.map Stream.recvHighest =
      (l.conn.streams.map Stream.id).map l.counted := by
    rw [List.map_map]
    exact List.map_congr_left fun s hs => (hl.even s hs).counted.symm
  rw [hl.single.charged, hstreams, total, ← List.sum_toFinset _ hl.nodup,
    ← List.sum_toFinset _ hl.single.ids]
  -- the two sets differ in streams that count nothing
  apply Finset.sum_congr_of_eq_on_inter
  · intro id _ hid
    exact hl.absent id (by simpa using hid)
  · intro id _ hid
    exact hl.unseen id (by simpa using hid)
  · exact fun _ _ _ => rfl

/-! ## Changes to one stream -/

/-- The stream at `h` becomes `t`, and the others stay. -/
def Replaces (h : ℕ) (t : Stream) (c c' : Conn) : Prop :=
  c'.streams = c.streams.modify h fun _ => t

theorem replaces_modifyStream (hs : c.streams[h]? = some s) (f : Stream → Stream) :
    Replaces h (f s) c (c.modifyStream h f) :=
  Modify.modify_congr hs rfl

theorem Replaces.self {d : Conn} (hr : Replaces h t c d) (hs : c.streams[h]? = some s) :
    d.streams[h]? = some t := by
  rw [hr, List.getElem?_modify_eq, hs]
  rfl

theorem Replaces.trans {u : Stream} {d e : Conn} (hr : Replaces h t c d) (hr' : Replaces h u d e) :
    Replaces h u c e := by
  rw [Replaces, hr', hr, List.modify_modify_eq]
  rfl

/-- One stream changes, and the ledger with it. -/
theorem Settled.replace {l' : Ledger} (hl : l.Settled) (hs : l.conn.streams[h]? = some s)
    (hr : Replaces h t l.conn l'.conn) (hsingle : l'.conn.Single) (hid : t.id = s.id)
    (hnodup : l'.ids.Nodup) (hunseen : ∀ id, id ∉ l'.ids → l'.counted id = 0)
    (hcounted : ∀ id, id ≠ s.id → l'.counted id = l.counted id) (heven : Even l'.counted t)
    (hconsumed : l'.conn.connRecvConsumed + s.recv.base =
      l.conn.connRecvConsumed + t.recv.base)
    (hcredit : l'.conn.connRecvConsumed + defaultConnRecvWindow / 2 ≤ l'.conn.connRecvMax) :
    l'.Settled := by
  have hsmem := List.mem_of_getElem? hs
  have htmem := List.mem_of_getElem? (hr.self hs)
  refine ⟨hsingle, hnodup, hunseen, ?_, ?_, hcredit, ?_⟩
  · intro id hmem
    have hold : id ∉ l.conn.streams.map Stream.id := by
      intro hold
      apply hmem
      rcases List.mem_map.mp hold with ⟨x, hx, rfl⟩
      by_cases hxs : x = s
      · exact List.mem_map.mpr ⟨t, htmem, hxs ▸ hid⟩
      · rw [hr]
        exact List.mem_map_of_mem (Modify.mem_modify_of_ne hs hxs hx)
    have hne : id ≠ s.id := by
      rintro rfl
      exact hold (List.mem_map_of_mem hsmem)
    rw [hcounted id hne, hl.absent id hold]
  · have hsum := Modify.sum_map_modify hs (fun x => x.recv.base) fun _ => t
    rw [hr]
    have hold := hl.consumed
    omega
  · intro x hx
    by_cases hxid : x.id = s.id
    · -- only the new stream has the identifier
      rw [List.inj_on_of_nodup_map hsingle.ids hx htmem (hxid.trans hid.symm)]
      exact heven
    · rw [hr] at hx
      rcases Modify.mem_modify hs hx with hx | rfl
      · have hx := hl.even x hx
        exact { hx with counted := (hcounted x.id hxid).trans hx.counted }
      · exact heven

/-- Nothing on the receive side moves. -/
theorem Settled.calm (hl : l.Settled) (h : Conn.Calm l.conn c) :
    ({ l with conn := c } : Ledger).Settled := by
  have hbase := congrArg (List.map fun x : ℕ × RecvStream × ℕ × ℕ × Bool => x.2.1.base) h.received
  simp only [List.map_map] at hbase
  have hids := h.quiet.ids
  refine ⟨hl.single.quiet h.quiet, hl.nodup, hl.unseen, ?_, ?_, ?_, ?_⟩
  · intro id hid
    rw [hids] at hid
    exact hl.absent id hid
  · exact (h.recvConsumed.trans hl.consumed).trans (congrArg List.sum hbase.symm)
  · simp only [h.recvConsumed, h.recvMax]
    exact hl.credit
  · intro x hx
    have hx' : x.received ∈ l.conn.streams.map Stream.received :=
      h.received ▸ List.mem_map_of_mem hx
    rcases List.mem_map.mp hx' with ⟨s, hs, heq⟩
    simp only [Stream.received, Prod.mk.injEq] at heq
    rcases heq with ⟨hid, hrecv, -, hhighest, hreset⟩
    have heven := hl.even s hs
    constructor
    · rw [← hid, ← hhighest]
      exact heven.counted
    · rw [← hrecv, ← hhighest]
      exact heven.within
    · rw [← hhighest]
      exact heven.bounded
    · rw [← hreset, Read, ← hrecv, ← hhighest]
      exact heven.abandoned

theorem note_nodup (h : l.ids.Nodup) (id stop : ℕ) : (l.note id stop).ids.Nodup := by
  simp only [note]
  split_ifs with hmem
  · exact h
  · rw [← List.concat_eq_append]
    exact h.concat hmem

theorem mem_note (l : Ledger) (id stop : ℕ) : id ∈ (l.note id stop).ids := by
  simp only [note]
  split_ifs with hmem
  · exact hmem
  · simp

theorem not_mem_of_note {x : ℕ} (hx : x ∉ (l.note id stop).ids) :
    x ∉ l.ids := by
  intro hmem
  apply hx
  simp only [note]
  split_ifs
  · exact hmem
  · exact List.mem_append_left _ hmem

theorem note_unseen (hl : l.Settled) {x : ℕ} (hx : x ∉ (l.note id stop).ids) :
    (l.note id stop).counted x = 0 := by
  have hne : x ≠ id := fun heq => hx (heq ▸ mem_note l id stop)
  simp only [note, Function.update_of_ne hne]
  exact hl.unseen x (not_mem_of_note hx)

/-- A frame that reaches no further than what was counted. -/
theorem Settled.note_old (hl : l.Settled) (h : stop ≤ l.counted id) :
    (l.note id stop).Settled := by
  have hcounted : (l.note id stop).counted = l.counted := by
    simp only [note, Nat.max_eq_left h, Function.update_eq_self]
  refine { hl with
    nodup := note_nodup hl.nodup id stop, unseen := fun x hx => note_unseen hl hx, absent := ?_
    even := ?_ }
  · rw [hcounted]
    exact hl.absent
  · rw [hcounted]
    exact hl.even

/-! ## Frames that arrive -/

theorem maxVarint_lt : maxVarint < u64 := by decide

theorem sum_map_update {ids : List ℕ} (hn : ids.Nodup) (hmem : id ∈ ids) (f : ℕ → ℕ) (v : ℕ) :
    (ids.map (Function.update f id v)).sum + f id = (ids.map f).sum + v := by
  have hid := List.mem_toFinset.mpr hmem
  rw [← List.sum_toFinset _ hn, ← List.sum_toFinset _ hn, Finset.sum_update_of_mem hid,
    Finset.sdiff_singleton_eq_erase, ← Finset.add_sum_erase _ f hid]
  omega

/-- A frame adds to the count what it reaches beyond the old end. -/
theorem Settled.total_note (hl : l.Settled) (id stop : ℕ) :
    (l.note id stop).total + l.counted id = l.total + max (l.counted id) stop := by
  by_cases hmem : id ∈ l.ids
  · simp only [total, note, if_pos hmem]
    exact sum_map_update hl.nodup hmem l.counted _
  have hzero := hl.unseen id hmem
  have hold : l.ids.map (Function.update l.counted id (max (l.counted id) stop)) =
      l.ids.map l.counted := by
    apply List.map_congr_left
    intro y hy
    have hne : y ≠ id := fun heq => hmem (heq ▸ hy)
    exact Function.update_of_ne hne _ _
  simp only [total, note, if_neg hmem, List.map_append, List.sum_append, hold]
  simp [hzero]

/-- A frame within the limits is charged, and the stream reaches as far as the frame. -/
theorem Settled.chargeRecv (hl : l.Settled) (hs : l.conn.streams[h]? = some s)
    (hstream : stop ≤ s.recvMax) (hconn : (l.note s.id stop).total ≤ l.conn.connRecvMax) :
    ∃ c, l.conn.chargeRecv h s stop = (none, c) ∧ c.Single ∧
      Replaces h { s with recvHighest := max s.recvHighest stop } l.conn c ∧
      c.connRecvConsumed = l.conn.connRecvConsumed ∧ c.connRecvMax = l.conn.connRecvMax := by
  have hsingle := single_hears.chargeRecv hl.single hs stop
  have hcounted := (hl.even_at hs).counted
  have htotal := hl.total_note s.id stop
  have hagree := hl.total_eq
  have hon : ¬ l.conn.connRecvMax = 0 := by
    have hcredit := hl.credit
    simp only [defaultConnRecvWindow] at hcredit
    omega
  unfold Conn.chargeRecv at hsingle ⊢
  rw [if_neg hon, if_neg (by omega)] at hsingle ⊢
  split_ifs at hsingle ⊢ with hold
  · refine ⟨l.conn, rfl, hsingle, ?_, rfl, rfl⟩
    rw [Nat.max_eq_left hold]
    exact (List.modify_id h _).symm.trans (Modify.modify_congr hs rfl)
  · have hroom : ¬ l.conn.connRecvTotal + (stop - s.recvHighest) > l.conn.connRecvMax := by
      omega
    rw [if_neg hroom] at hsingle ⊢
    refine ⟨_, rfl, hsingle, ?_, rfl, rfl⟩
    rw [Nat.max_eq_right (by omega)]
    exact replaces_modifyStream hs fun s => { s with recvHighest := stop }

theorem Settled.receiveOn (hl : l.Settled) {offset : ℕ} {data : Bytes}
    (hs : l.conn.streams[h]? = some s) (hsize : offset + data.length ≤ maxVarint)
    (hstream : offset + data.length ≤ s.recvMax)
    (hconn : (l.note s.id (offset + data.length)).total ≤ l.conn.connRecvMax)
    (hquiet : s.recvReset = true → offset + data.length ≤ s.recvHighest) (fin : Bool) :
    ({ l.note s.id (offset + data.length) with
      conn := (l.conn.receiveOn h s offset fin data).2 } : Ledger).Settled := by
  rcases hl.even_at hs with ⟨hcounted, hwithin, hhighest, habandoned⟩
  have hmod : (offset + data.length) % u64 = offset + data.length :=
    Nat.mod_eq_of_lt (lt_of_le_of_lt hsize maxVarint_lt)
  have hbound : max s.recvHighest (offset + data.length) ≤ maxVarint :=
    Nat.max_le.mpr ⟨hhighest, hsize⟩
  have hreceived : (s.recv.receive offset data fin).1.Within
        (max s.recvHighest (offset + data.length)) ∧
      (s.recv.receive offset data fin).1.base = s.recv.base :=
    RecvStream.receive_within (lt_of_le_of_lt hbound maxVarint_lt)
      (hwithin.mono (Nat.le_max_left _ _)) (Nat.le_max_right _ _) fin
  have hsingle := single_hears.receiveOn hl.single hs offset fin data
  rcases hl.chargeRecv hs hstream hconn with ⟨c, hcharge, -, hreplaces, hconsumed, hmax⟩
  -- the stream after the frame
  have hnew : Replaces h { s with
        recvHighest := max s.recvHighest (offset + data.length)
        recv := (s.recv.receive offset data fin).1 } l.conn
        (l.conn.receiveOn h s offset fin data).2 ∧
      (l.conn.receiveOn h s offset fin data).2.connRecvConsumed = l.conn.connRecvConsumed ∧
      (l.conn.receiveOn h s offset fin data).2.connRecvMax = l.conn.connRecvMax := by
    have hrecv := hreplaces.trans (replaces_modifyStream (hreplaces.self hs) fun s' =>
      { s' with recv := (s.recv.receive offset data fin).1 })
    unfold Conn.receiveOn
    rw [hmod, hcharge]
    dsimp only
    split
    · exact ⟨hrecv, hconsumed, hmax⟩
    · have hcalm := Conn.maybeRetire_calm (c.modifyStream h fun s' =>
        { s' with recv := (s.recv.receive offset data fin).1 }) h
      exact ⟨(Conn.maybeRetire_streams _ h).trans hrecv, hcalm.recvConsumed.trans hconsumed,
        hcalm.recvMax.trans hmax⟩
  rcases hnew with ⟨hreplaces', hconsumed', hmax'⟩
  refine hl.replace hs hreplaces' hsingle rfl (note_nodup hl.nodup s.id (offset + data.length))
    ?_ ?_ ⟨?_, hreceived.1, hbound, ?_⟩ ?_ ?_
  · exact fun id hid => note_unseen hl hid
  · intro id hid
    exact Function.update_of_ne hid _ _
  · simp only [note, Function.update_self, hcounted]
  · intro hreset
    have hread := habandoned hreset
    have hold := hquiet hreset
    simp only [Read]
    rw [hreceived.2, hread, Nat.max_eq_left hold]
  · simp only [hconsumed', hreceived.2]
  · simp only [hconsumed', hmax']
    exact hl.credit

/-- A stream is made, on which nothing has come. -/
theorem Settled.add (hl : l.Settled) {sendMax : ℕ}
    (hstreams : c.streams = l.conn.streams ++ [Stream.new id sendMax]) (hsingle : c.Single)
    (hconsumed : c.connRecvConsumed = l.conn.connRecvConsumed)
    (hmax : c.connRecvMax = l.conn.connRecvMax) : ({ l with conn := c } : Ledger).Settled := by
  have hnew : id ∉ l.conn.streams.map Stream.id := by
    have hids := hsingle.ids
    rw [hstreams, List.map_append] at hids
    exact List.disjoint_singleton.mp (List.disjoint_of_nodup_append hids)
  refine ⟨hsingle, hl.nodup, hl.unseen, ?_, ?_, ?_, ?_⟩
  · intro x hx
    apply hl.absent
    intro hold
    apply hx
    rw [hstreams, List.map_append]
    exact List.mem_append_left _ hold
  · simp only [hconsumed, hstreams, List.map_append, List.sum_append, hl.consumed]
    simp [Stream.new, RecvStream.empty]
  · simp only [hconsumed, hmax]
    exact hl.credit
  · intro x hx
    rw [hstreams, List.mem_append, List.mem_singleton] at hx
    rcases hx with hx | rfl
    · exact hl.even x hx
    · refine ⟨hl.absent id hnew, ⟨?_, ?_⟩, ?_, ?_⟩ <;> simp [Stream.new, RecvStream.empty]

/-- The limit the peer knows for the stream at a place. -/
theorem Settled.streamLimit_eq (hl : l.Settled) (hs : l.conn.streams[h]? = some s) :
    l.streamLimit s.id = s.recvMax := by
  unfold streamLimit
  cases hfind : l.conn.streams.find? fun x => x.id = s.id with
  | none =>
    have hnone := List.find?_eq_none.mp hfind s (List.mem_of_getElem? hs)
    simp at hnone
  | some t =>
    have htmem := List.mem_of_find?_eq_some hfind
    have htid : t.id = s.id := by simpa using List.find?_some hfind
    rw [List.inj_on_of_nodup_map hl.single.ids htmem (List.mem_of_getElem? hs) htid]
    rfl

/-- The limit for an identifier that no stream has had. -/
theorem streamLimit_absent (h : id ∉ l.conn.streams.map Stream.id) :
    l.streamLimit id = defaultStreamRecvWindow := by
  have hfind : (l.conn.streams.find? fun x => x.id = id) = none := by
    apply List.find?_eq_none.mpr
    intro x hx
    have hne : x.id ≠ id := fun heq => h (heq ▸ List.mem_map_of_mem hx)
    simpa using hne
  simp [streamLimit, hfind]

/-- A stream of the peer that is within the limits is accepted. -/
theorem onUnknownStream_accepts (hl : l.Settled) (hallowed : l.Allowed id)
    (hours : ¬ l.conn.ours id = true) (hnew : id ∉ l.conn.acceptLog) :
    ∃ c sendMax, l.conn.onUnknownStream id = .ok (some c) ∧
      c.lookup id = some (l.conn.streams.length, Stream.new id sendMax) ∧
      ({ l with conn := c } : Ledger).Settled ∧ c.connRecvMax = l.conn.connRecvMax := by
  have haccepts : ∃ c, l.conn.onUnknownStream id = .ok (some c) := by
    unfold Allowed at hallowed
    unfold Conn.onUnknownStream Conn.acceptPeerUniStream Conn.acceptPeerBidiStream
    rw [if_neg hours] at hallowed ⊢
    by_cases huni : isUni id
    · rw [if_pos huni] at hallowed ⊢
      rw [if_neg (by omega)]
      exact ⟨_, rfl⟩
    · rw [if_neg huni] at hallowed ⊢
      rw [if_neg (by simp [hallowed.1]), if_neg (by omega)]
      exact ⟨_, rfl⟩
  rcases haccepts with ⟨c, hok⟩
  have hsingle := Conn.onUnknownStream_single hl.single hnew hok
  rcases Conn.onUnknownStream_ok hok with ⟨_, uni, bidi, rfl⟩
  refine ⟨_, l.conn.initialStreamData id, hok, ?_, hl.add rfl hsingle rfl rfl, rfl⟩
  simp [Conn.lookup, Conn.addStream]

theorem onStream_settled (hl : l.Settled) {offset : ℕ} {fin : Bool} {data : Bytes}
    (hconf : l.Conformant (.onStream id offset fin data))
    (htidy : l.Tidy (.onStream id offset fin data)) :
    ({ l.note id (offset + data.length) with
      conn := (l.conn.onStream id offset fin data).2 } : Ledger).Settled := by
  rcases hconf with ⟨hallowed, hsize, hstream, hconn⟩
  have hsend : ¬ l.conn.sendOnlyStream id = true := by
    intro hso
    simp only [Conn.sendOnlyStream, Bool.and_eq_true] at hso
    unfold Allowed at hallowed
    rw [if_pos hso.2, hso.1] at hallowed
    exact absurd hallowed.1 (by simp)
  unfold Conn.onStream
  rw [if_neg hsend]
  simp only [Tidy] at htidy
  cases hlookup : l.conn.lookup id with
  | some hs =>
    rcases hl.single.lookup hlookup with ⟨hs, rfl⟩
    rw [hlookup] at htidy
    rw [hl.streamLimit_eq hs] at hstream
    exact hl.receiveOn hs hsize hstream hconn htidy fin
  | none =>
    rw [hlookup] at htidy
    have hroutes := hl.single.routes_none hlookup
    have hnew : id ∉ l.conn.acceptLog := fun hmem => htidy.1 ⟨hmem, hroutes⟩
    by_cases hours : l.conn.ours id = true
    · -- a stream of ours that was retired: the frame is ignored, and brings nothing new
      have hcreated : l.conn.localStreamNotCreated id = false := by
        unfold Allowed at hallowed
        rw [if_pos hours] at hallowed
        exact hallowed.2
      have hignored : l.conn.onUnknownStream id = .ok none := by
        simp [Conn.onUnknownStream, hours, hcreated]
      rw [hignored]
      exact hl.note_old (htidy.2 hours)
    · rcases onUnknownStream_accepts hl hallowed hours hnew with
        ⟨c, sendMax, hok, hlookup', hl', hmax⟩
      rw [hok]
      dsimp only
      rw [hlookup']
      have hs := (hl'.single.lookup hlookup').1
      have hmem : id ∉ l.conn.streams.map Stream.id := by
        intro hmem
        apply hnew
        rw [hl.single.logged]
        exact List.mem_filter.mpr ⟨hmem, by simp [hours]⟩
      rw [streamLimit_absent hmem] at hstream
      exact hl'.receiveOn hs hsize hstream (hmax ▸ hconn) (by simp [Stream.new]) fin

/-- One stream changes and what the peer has counted does not. -/
theorem Settled.replaceSame (hl : l.Settled) (hs : l.conn.streams[h]? = some s)
    (hr : Replaces h t l.conn c) (hsingle : c.Single) (hid : t.id = s.id)
    (hhighest : t.recvHighest = s.recvHighest) (hwithin : t.recv.Within s.recvHighest)
    (habandoned : t.recvReset = true → Read t)
    (hconsumed : c.connRecvConsumed + s.recv.base = l.conn.connRecvConsumed + t.recv.base)
    (hcredit : c.connRecvConsumed + defaultConnRecvWindow / 2 ≤ c.connRecvMax) :
    ({ l with conn := c } : Ledger).Settled := by
  refine hl.replace hs hr hsingle hid hl.nodup hl.unseen (fun _ _ => rfl) ?_ hconsumed hcredit
  have heven := hl.even_at hs
  constructor
  · rw [hid, hhighest]
    exact heven.counted
  · rw [hhighest]
    exact hwithin
  · rw [hhighest]
    exact heven.bounded
  · exact habandoned

theorem onResetStream_settled (hl : l.Settled) {finalSize : ℕ}
    (hconf : l.Conformant (.onResetStream id finalSize))
    (htidy : l.Tidy (.onResetStream id finalSize)) :
    ({ l.note id finalSize with conn := (l.conn.onResetStream id finalSize).2 } : Ledger).Settled := by
  have hsingle := single_hears.onResetStream hl.single id finalSize
  rcases hconf with ⟨⟨-, -, -, hconn⟩, hcover⟩
  simp only [Tidy] at htidy
  cases hlookup : l.conn.lookup id with
  | none =>
    rw [hlookup] at htidy
    have hsame : (l.conn.onResetStream id finalSize).2 = l.conn := by
      unfold Conn.onResetStream
      rw [hlookup]
      split_ifs <;> rfl
    rw [hsame]
    exact hl.note_old htidy
  | some hs =>
    rcases hs with ⟨h, s⟩
    rcases hl.single.lookup hlookup with ⟨hs, rfl⟩
    rw [hlookup] at htidy
    rcases hl.even_at hs with ⟨hcounted, hwithin, -, -⟩
    have hrun := hwithin.run
    -- the final size is what was read, so the frame brings nothing that was not counted
    have hnoted : (l.note s.id finalSize).Settled := hl.note_old (by omega)
    have hread : s.recv.base = s.recvHighest := by omega
    unfold Conn.onResetStream at hsingle ⊢
    rw [hlookup] at hsingle ⊢
    split_ifs
    · exact hnoted
    · exact hnoted
    · dsimp only at hsingle ⊢
      split_ifs at hsingle ⊢
      · exact hnoted
      · exact hnoted
      · exact hnoted
      · have hcharge : ∃ err, l.conn.chargeRecv h s finalSize = (err, l.conn) := by
          unfold Conn.chargeRecv
          split_ifs
          · exact ⟨_, rfl⟩
          · exact ⟨_, rfl⟩
          · exact ⟨_, rfl⟩
          all_goals omega
        rcases hcharge with ⟨err, hcharge⟩
        rw [hcharge] at hsingle ⊢
        cases err with
        | some err => exact hnoted
        | none =>
          have hcalm := Conn.maybeRetire_calm (l.conn.modifyStream h fun s => { s with
            recv := { s.recv with
              finalKnown := true, finalSize := finalSize, highest := max s.recv.highest finalSize }
            recvReset := true }) h
          refine hnoted.replaceSame hs
            ((Conn.maybeRetire_streams _ h).trans (replaces_modifyStream hs _)) hsingle rfl rfl
            ⟨hwithin.run, hwithin.waiting⟩ (fun _ => hread) ?_ ?_
          · rw [hcalm.recvConsumed]
            rfl
          · rw [hcalm.recvConsumed, hcalm.recvMax]
            exact hl.credit

/-! ## The application reads and abandons -/

theorem grantConn_eq (c : Conn) :
    c.grantConn =
      if c.connRecvConsumed + defaultConnRecvWindow ≥ c.connRecvMax + defaultConnRecvWindow / 2
      then { c with connRecvMax := c.connRecvConsumed + defaultConnRecvWindow } else c := rfl

/-- The grant leaves the limit half a window ahead of what was read, or more. -/
theorem grantConn_credit (c : Conn) :
    c.grantConn.connRecvConsumed = c.connRecvConsumed ∧ c.grantConn.streams = c.streams ∧
      c.connRecvConsumed + defaultConnRecvWindow / 2 ≤ c.grantConn.connRecvMax := by
  rw [grantConn_eq]
  split_ifs with hgrant
  · exact ⟨rfl, rfl, Nat.add_le_add_left (Nat.div_le_self _ _) _⟩
  · refine ⟨rfl, rfl, ?_⟩
    -- the window stays a symbol: as a number the kernel counts it out in unary
    generalize defaultConnRecvWindow = window at hgrant ⊢
    omega

/-- Reading counts, changes only the limit of the stream, and grants. -/
theorem onStreamConsumed_spec (hs : c.streams[h]? = some s) (hon : c.connRecvMax ≠ 0) (n : ℕ) :
    (∃ recvMax, Replaces h { s with recvMax := recvMax } c (c.onStreamConsumed h n)) ∧
      (c.onStreamConsumed h n).connRecvConsumed = c.connRecvConsumed + n ∧
      c.connRecvConsumed + n + defaultConnRecvWindow / 2 ≤
        (c.onStreamConsumed h n).connRecvMax := by
  unfold Conn.onStreamConsumed
  rw [if_neg hon]
  rcases grantConn_credit (({ c with connRecvConsumed := c.connRecvConsumed + n } :
    Conn).modifyStream h Conn.grantStream) with ⟨hconsumed, hstreams, hcredit⟩
  have hreplaces := replaces_modifyStream hs Conn.grantStream
  rw [Conn.grantStream_eq] at hreplaces
  exact ⟨⟨_, hstreams.trans hreplaces⟩, hconsumed, hcredit⟩

theorem recv_settled (hl : l.Settled) (h : ℕ) :
    ({ l with conn := (l.conn.recv h).2 } : Ledger).Settled := by
  have hsingle := single_hears.recv hl.single h
  unfold Conn.recv at hsingle ⊢
  cases hs : l.conn.streams[h]? with
  | none => exact hl
  | some s =>
    rw [hs] at hsingle
    dsimp only at hsingle ⊢
    rcases hl.even_at hs with ⟨-, hwithin, hhighest, hreadAll⟩
    have hrun := hwithin.run
    have hbase : s.recv.read.2.base = s.recv.base + s.recv.data.length :=
      Nat.mod_eq_of_lt (lt_of_le_of_lt (Nat.le_trans hrun hhighest) maxVarint_lt)
    have hwithin' : s.recv.read.2.Within s.recvHighest := by
      refine ⟨?_, hwithin.waiting⟩
      rw [hbase]
      exact hrun
    -- an abandoned stream has nothing left to read
    have habandoned : s.recvReset = true → s.recv.read.2.base = s.recvHighest := by
      intro hreset
      have hread := hreadAll hreset
      simp only [Read] at hread
      omega
    have hreplaces := replaces_modifyStream hs fun s' => { s' with recv := s.recv.read.2 }
    split_ifs at hsingle ⊢ with hdata
    · have hon : (l.conn.modifyStream h fun s' => { s' with recv := s.recv.read.2 }).connRecvMax ≠ 0 := by
        have hcredit := hl.credit
        simp only [modifyStream, defaultConnRecvWindow] at hcredit ⊢
        omega
      rcases onStreamConsumed_spec (hreplaces.self hs) hon s.recv.read.1.length with
        ⟨⟨recvMax, hnew⟩, hconsumed, hcredit⟩
      refine hl.replaceSame hs (hreplaces.trans hnew) hsingle rfl rfl hwithin' habandoned ?_
        (hconsumed ▸ hcredit)
      rw [hconsumed, hbase]
      simp only [modifyStream, RecvStream.read]
      omega
    · have hnone : s.recv.data.length = 0 := Nat.eq_zero_of_not_pos hdata
      refine hl.replaceSame hs hreplaces hsingle rfl rfl hwithin' habandoned ?_ hl.credit
      rw [hbase, hnone]
      rfl

theorem stopSending_settled (hl : l.Settled) {errCode : ℕ} {wire : Recovery.Wire}
    (htidy : l.Tidy (.stopSending h errCode wire)) :
    ({ l with conn := (l.conn.stopSending h errCode wire).2 } : Ledger).Settled := by
  rcases Conn.stopSending_cases l.conn h errCode wire with hcalm | hcalm
  · exact hl.calm hcalm
  cases hs : l.conn.streams[h]? with
  | none =>
    have hsame : (l.conn.modifyStream h fun s => { s with recvReset := true }) = l.conn := by
      unfold modifyStream
      rw [List.modify_eq_self (by simpa using hs)]
    rw [hsame] at hcalm
    exact hl.calm hcalm
  | some s =>
    have hread : Read s := htidy s hs
    have hquiet : Conn.Quiet l.conn (l.conn.modifyStream h fun s => { s with recvReset := true }) := by
      apply Conn.modifyStream_quiet
      · exact fun _ => rfl
      · exact fun _ => rfl
    have hstopped := hl.replaceSame hs (replaces_modifyStream hs fun s => { s with recvReset := true })
      (hl.single.quiet hquiet) rfl rfl (hl.even_at hs).within (fun _ => hread) rfl hl.credit
    exact hstopped.calm hcalm

/-! ## Runs -/

theorem step_settled {l' : Ledger} {op : Op} (hl : l.Settled) (hconf : l.Conformant op)
    (htidy : l.Tidy op) (hstep : l.step op = some l') : l'.Settled := by
  rcases Option.map_eq_some_iff.mp hstep with ⟨c, hc, rfl⟩
  have hcount : op.brings = false → l.count op = l := by
    intro hop
    cases op <;> first | rfl | cases hop
  cases Conn.step_stirs hc with
  | calm hop hcalm =>
    rw [hcount hop]
    exact hl.calm hcalm
  | opened hop hsingle hstreams _ _ hconsumed hmax =>
    rw [hcount hop]
    exact hl.add hstreams (hsingle hl.single) hconsumed hmax
  | stopSending h errCode wire => exact stopSending_settled hl htidy
  | recv h => exact recv_settled hl h
  | onStream id offset fin data =>
    exact (onStream_settled hl hconf htidy).calm (Conn.handled_calm _)
  | onResetStream id finalSize =>
    exact (onResetStream_settled hl hconf htidy).calm (Conn.handled_calm _)

theorem init_settled (params : Params) : (system params).init.Settled := by
  refine ⟨Conn.new_single params, ?_, ?_, ?_, ?_, ?_, ?_⟩ <;>
    simp [system, Conn.new, defaultConnRecvWindow]

/-- The peer conforms, and streams are abandoned only when they were read. -/
def Orderly (l : Ledger) (op : Op) : Prop := l.Conformant op ∧ l.Tidy op

instance (l : Ledger) (op : Op) : Decidable (l.Orderly op) :=
  inferInstanceAs (Decidable (_ ∧ _))

theorem reachable_settled {params : Params} (h : (system params).ReachableBy Orderly l) :
    l.Settled := by
  refine h.invariant ?_ ?_
  · exact init_settled params
  · intro m op m' hm horderly hstep
    exact step_settled hm horderly.1 horderly.2 hstep

/-- With a conformant peer, and as long as a stream is abandoned only when everything sent on it
was read and nothing new comes for it afterwards: when every stream is read to the end or
abandoned, the limit is half a window ahead of what the peer has counted. -/
theorem credit_returned {params : Params} {l : Ledger}
    (h : (system params).ReachableBy Orderly l) (hidle : l.Idle) :
    l.total + defaultConnRecvWindow / 2 ≤ l.conn.connRecvMax := by
  have hl := reachable_settled h
  have hread : ∀ s ∈ l.conn.streams, s.recvHighest = s.recv.base := by
    intro s hs
    rcases hidle s hs with hr | hr
    · exact hr.symm
    · exact ((hl.even s hs).abandoned hr).symm
  have hconsumed : l.conn.connRecvTotal = l.conn.connRecvConsumed := by
    rw [hl.single.charged, hl.consumed, List.map_congr_left hread]
  rw [hl.total_eq, hconsumed]
  exact hl.credit

/-- A client that may open four streams. -/
def smallClient : Params where
  isServer := false
  bbr := false
  initialMaxData := 100
  initialMaxStreamDataBidiLocal := 50
  initialMaxStreamDataBidiRemote := 50
  initialMaxStreamDataUni := 50
  initialMaxStreamsBidi := 4
  initialMaxStreamsUni := 4
  localMaxStreamsBidi := 0
  localMaxStreamsUni := 3

/-- One response is read to its end, a second one is stopped and a third one reset after what
came of them was read. -/
theorem credit_returned_responses :
    ∃ l, (system smallClient).ReachableBy Orderly l ∧ l.Idle ∧ l.total = 6 ∧
      l.total + defaultConnRecvWindow / 2 ≤ l.conn.connRecvMax := by
  have hrun : ∃ l, (system smallClient).ReachableBy Orderly l ∧ l.Idle ∧ l.total = 6 := by
    apply System.exists_reachableBy
      [.establish, .openStream fairWire, .openStream fairWire,
       .openStream fairWire, .onStream 0 1 true [2, 3], .onStream 0 0 false [1], .recv 0,
       .onStream 4 0 false [7], .recv 1, .stopSending 1 0 fairWire,
       .onStream 8 0 false [8, 9], .recv 2, .onResetStream 8 2]
    · decide +kernel
    · decide +kernel
  rcases hrun with ⟨l, hreach, hidle, htotal⟩
  exact ⟨l, hreach, hidle, htotal, credit_returned hreach hidle⟩

/-- A conformant server resets its responses on three streams at 256 KiB each, the window of a
stream: every stream is abandoned, and of the window of 1 MiB only 256 KiB are left, for the rest
of the connection. -/
theorem reset_streams_leak_credit :
    ∃ l, (system smallClient).ReachableBy Conformant l ∧ l.Idle ∧
      l.total = 3 * defaultStreamRecvWindow ∧ l.conn.connRecvMax = defaultConnRecvWindow ∧
      ¬ l.total + defaultConnRecvWindow / 2 ≤ l.conn.connRecvMax := by
  apply System.exists_reachableBy
    [.openStream fairWire, .openStream fairWire, .openStream fairWire,
     .onResetStream 0 defaultStreamRecvWindow, .onResetStream 4 defaultStreamRecvWindow,
     .onResetStream 8 defaultStreamRecvWindow]
  · decide +kernel
  · decide +kernel

end Ledger

end Quic
