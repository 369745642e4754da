import PoseidonHttp.Quic.StreamLife

/-!
# One final size

A stream learns where it ends from a STREAM frame with FIN or from a RESET_STREAM. The two
handlers check what they are told against `finalSize` and `highest`, each at its own place.

`Told` is a connection together with what the frames it accepted have said of each stream. The
invariant is that `highest` and `finalSize` are the account of the log: no frame ends beyond
`highest`, and one that ends the stream ends there.
-/

namespace Quic

open Header (Bytes)
open Transition

/-- What a frame says of its stream: where the frame ends, and whether the stream ends there. -/
structure Extent where
  stop : ℕ
  final : Bool
  deriving DecidableEq, Repr

/-- There is a size that no frame passes, and at which every frame ends that ends the stream. -/
def Agree (log : List Extent) : Prop :=
  ∃ size, ∀ e ∈ log, e.stop ≤ size ∧ (e.final = true → e.stop = size)

/-! ## The account of a stream -/

/-- What a stream knows of its end: `highest`, `finalKnown` and `finalSize`. -/
abbrev Reach := ℕ × Bool × ℕ

def RecvStream.reach (r : RecvStream) : Reach := (r.highest, r.finalKnown, r.finalSize)

theorem RecvStream.insert_reach (r : RecvStream) (offset : ℕ) (data : Bytes) :
    (r.insert offset data).reach = r.reach := by
  rcases r.insert_fields offset data with ⟨-, hhighest, -, hknown, hsize⟩
  simp only [reach, hhighest, hknown, hsize]

/-- The account covers the frames of the log. -/
structure Spans (log : List Extent) (x : Reach) : Prop where
  within : ∀ e ∈ log, e.stop ≤ x.1
  final : ∀ e ∈ log, e.final = true → x.2.1 = true ∧ e.stop = x.1
  size : x.2.1 = true → x.2.2 = x.1

variable {log : List Extent} {e : Extent} {x : Reach}

theorem Spans.agree (h : Spans log x) : Agree log :=
  ⟨x.1, fun e he => ⟨h.within e he, fun hfinal => (h.final e he hfinal).2⟩⟩

/-- The first frames of a log have an account if all have. -/
theorem Spans.init (h : Spans (log ++ [e]) x) : Spans log x :=
  ⟨fun d hd => h.within d (List.mem_append_left _ hd),
    fun d hd => h.final d (List.mem_append_left _ hd), h.size⟩

/-- A frame that fits is added to the account: it stays within a size that is known, and a size
it sets is not below what has come. -/
theorem Spans.snoc {high size stop : ℕ} {known fin : Bool} (h : Spans log (high, known, size))
    (hfixed : known = true → stop ≤ size ∧ (fin = true → stop = size))
    (hbelow : fin = true → high ≤ stop) :
    Spans (log ++ [⟨stop, fin⟩])
      (max high stop, known || fin, if fin = true then stop else size) := by
  have hsize : known = true → size = high := h.size
  -- once the size is known, frames no longer move `highest`
  have hhigh : known = true → max high stop = high := by
    intro hk
    have := (hfixed hk).1
    have := hsize hk
    omega
  have hnew : fin = true → stop = max high stop := by
    intro hf
    have := hbelow hf
    omega
  constructor
  · intro d hd
    rcases List.mem_append.mp hd with hd | hd
    · exact (h.within d hd).trans (le_max_left _ _)
    · rw [List.mem_singleton.mp hd]
      exact le_max_right _ _
  · intro d hd hend
    rcases List.mem_append.mp hd with hd | hd
    · rcases h.final d hd hend with ⟨hk, heq⟩
      exact ⟨Bool.or_eq_true_iff.mpr (.inl hk), heq.trans (hhigh hk).symm⟩
    · rw [List.mem_singleton.mp hd] at hend ⊢
      exact ⟨Bool.or_eq_true_iff.mpr (.inr hend), hnew hend⟩
  · intro hk
    cases fin with
    | true => exact hnew rfl
    | false =>
      have hk : known = true := by simpa using hk
      exact (hsize hk).trans (hhigh hk).symm

/-- A STREAM frame that does not fit is refused and changes nothing; every other is accounted
for, also one that is refused for the gaps it leaves. -/
theorem receive_spans {r : RecvStream} (h : Spans log r.reach) (offset : ℕ) (data : Bytes)
    (fin : Bool) :
    r.receive offset data fin = (r, some .finalSize) ∨
      Spans (log ++ [⟨(offset + data.length) % u64, fin⟩]) (r.receive offset data fin).1.reach := by
  unfold RecvStream.receive
  generalize (offset + data.length) % u64 = stop
  by_cases hfixed : r.finalKnown = true ∧ (stop > r.finalSize ∨ fin = true ∧ stop ≠ r.finalSize)
  · exact .inl (if_pos hfixed)
  by_cases hbelow : fin = true ∧ stop < r.highest
  · rw [if_neg hfixed, if_pos hbelow]
    exact .inl rfl
  right
  have hraise : ∀ r : RecvStream, (if stop > r.highest then { r with highest := stop } else r).reach =
      (max r.highest stop, r.finalKnown, r.finalSize) := by
    intro r
    split_ifs with hgt
    · rw [max_eq_right hgt.le]
      rfl
    · rw [max_eq_left (Nat.le_of_not_gt hgt)]
      rfl
  rw [if_neg hfixed, if_neg hbelow, RecvStream.insert_reach, hraise]
  push Not at hfixed hbelow
  have hnew := Spans.snoc h hfixed hbelow
  cases fin with
  | true | false => simpa using hnew

namespace Conn

variable {c c' : Conn} {s : Stream} {h id : ℕ} {p : Params}

/-! ## The frames of a connection -/

/-- The connection on which the end of `OnStream` works: a stream of the peer is accepted. -/
def prepared (c : Conn) (id : ℕ) : Conn :=
  match c.lookup id, c.onUnknownStream id with
  | none, .ok (some c) => c
  | _, _ => c

/-- The stream a frame is for, and what it says of it. A RESET_STREAM says nothing of a stream
that was received completely. Offsets on the wire are below `2 ^ 62`; the handlers add in words. -/
def declares (c : Conn) : Op → Option (ℕ × Extent)
  | .onStream id offset fin data =>
    ((c.prepared id).lookup id).map fun hs => (hs.1, ⟨(offset + data.length) % u64, fin⟩)
  | .onResetStream id finalSize =>
    (c.lookup id).bind fun hs => if hs.2.recv.complete then none else some (hs.1, ⟨finalSize, true⟩)
  | _ => none

/-- The error of the handler of a frame that brings data or a final size. -/
def answer (c : Conn) : Op → Option Error
  | .onStream id offset fin data => (c.onStream id offset fin data).1
  | .onResetStream id finalSize => (c.onResetStream id finalSize).1
  | _ => none

/-- The streams, as far as their frames matter. -/
def reaches (c : Conn) : List (ℕ × Reach) := c.streams.map fun s => (s.id, s.recv.reach)

/-- Only the account `x` of stream `h` has changed: it is one of the log, unless the frame is
refused for what it says. -/
def Weighs (c : Conn) (h : ℕ) (x : Reach) (log : List Extent)
    (result : Option Error × Conn) : Prop :=
  ∃ k : Reach → Reach, result.2.reaches = c.reaches.modify h (fun y => (y.1, k y.2)) ∧
    (Spans log (k x) ∨
      k x = x ∧ (result.1 = some .finalSize ∨ result.1 = some .flowControl))

theorem weighs_refused {err : Error} (herr : err = .finalSize ∨ err = .flowControl) :
    c.Weighs h x log (some err, c) :=
  ⟨fun y => y, (List.modify_id h _).symm, .inr ⟨rfl, by simpa using herr⟩⟩

theorem modifyStream_reaches (c : Conn) (h : ℕ) {f : Stream → Stream}
    {k : Reach → Reach} (hid : ∀ s, (f s).id = s.id)
    (hk : ∀ s, (f s).recv.reach = k s.recv.reach) :
    (c.modifyStream h f).reaches = c.reaches.modify h fun y => (y.1, k y.2) := by
  apply Modify.map_modify
  intro s
  simp only [hid, hk]

theorem maybeRetire_reaches (c : Conn) (h : ℕ) : (c.maybeRetire h).reaches = c.reaches := by
  rw [reaches, maybeRetire_streams, reaches]

theorem chargeRecv_cases (c : Conn) (h : ℕ) (s : Stream) (stop : ℕ) :
    c.chargeRecv h s stop = (some .flowControl, c) ∨
      ∃ d, c.chargeRecv h s stop = (none, d) ∧ d.reaches = c.reaches := by
  unfold chargeRecv
  dsimp only
  split_ifs
  · exact .inr ⟨c, rfl, rfl⟩
  · exact .inl rfl
  · exact .inr ⟨c, rfl, rfl⟩
  · exact .inl rfl
  · refine .inr ⟨_, rfl, ?_⟩
    apply Modify.map_modify_of_eq
    exact fun _ => rfl

theorem receiveOn_weighs (hspan : Spans log s.recv.reach) (c : Conn) (h offset : ℕ) (fin : Bool)
    (data : Bytes) :
    c.Weighs h s.recv.reach (log ++ [⟨(offset + data.length) % u64, fin⟩])
      (c.receiveOn h s offset fin data) := by
  unfold receiveOn
  rcases chargeRecv_cases c h s ((offset + data.length) % u64) with hcharge | ⟨d, hcharge, hd⟩
  · rw [hcharge]
    exact weighs_refused (.inr rfl)
  rw [hcharge]
  dsimp only
  have hset : (d.modifyStream h fun u => { u with
      recv := (s.recv.receive offset data fin).1 }).reaches =
      c.reaches.modify h fun y => (y.1, (s.recv.receive offset data fin).1.reach) := by
    rw [← hd]
    exact modifyStream_reaches d h (k := fun _ => _) (fun _ => rfl) fun _ => rfl
  rcases receive_spans hspan offset data fin with hrefused | hspan
  · rw [hrefused] at hset ⊢
    exact ⟨fun _ => s.recv.reach, hset, .inr ⟨rfl, .inl rfl⟩⟩
  · refine ⟨fun _ => (s.recv.receive offset data fin).1.reach, ?_, .inl hspan⟩
    split
    · exact hset
    · exact (maybeRetire_reaches _ h).trans hset

theorem onResetStream_weighs {finalSize : ℕ} (hspan : Spans log s.recv.reach)
    (hl : c.lookup id = some (h, s)) (hcomplete : s.recv.complete = false)
    (hsend : c.sendOnlyStream id = false) (hlimit : c.exceedsUniStreamLimit id = false) :
    c.Weighs h s.recv.reach (log ++ [⟨finalSize, true⟩]) (c.onResetStream id finalSize) := by
  unfold onResetStream
  simp only [hsend, hlimit, hl, hcomplete, Bool.false_eq_true, if_false]
  split_ifs with hfixed hbelow
  · exact weighs_refused (.inl rfl)
  · exact weighs_refused (.inl rfl)
  rcases chargeRecv_cases c h s finalSize with hcharge | ⟨d, hcharge, hd⟩
  · rw [hcharge]
    exact weighs_refused (.inr rfl)
  rw [hcharge]
  refine ⟨fun y => (max y.1 finalSize, true, finalSize), ?_, .inl ?_⟩
  · rw [maybeRetire_reaches, ← hd]
    exact modifyStream_reaches d h (k := fun y => (max y.1 _, true, _)) (fun _ => rfl) fun _ => rfl
  · push Not at hfixed
    have hnew := hspan.snoc (fun hk => ⟨(hfixed hk).le, fun _ => hfixed hk⟩)
      fun _ : true = true => Nat.le_of_not_lt hbelow
    rw [Bool.or_true] at hnew
    exact hnew

/-! ## What the steps leave alone -/

theorem Calm.reaches (h : Calm c c') : c'.reaches = c.reaches := by
  have hview := congrArg (List.map fun x : ℕ × RecvStream × ℕ × ℕ × Bool => (x.1, x.2.1.reach))
    h.received
  rwa [List.map_map, List.map_map] at hview

/-- A change that a stream does not see in its account. -/
theorem modifyStream_kept (c : Conn) (h : ℕ) {f : Stream → Stream}
    (hf : ∀ s, ((f s).id, (f s).recv.reach) = (s.id, s.recv.reach)) :
    (c.modifyStream h f).reaches = c.reaches :=
  Modify.map_modify_of_eq hf c.streams h

theorem stopSending_reaches (c : Conn) (h errCode : ℕ) (wire : Recovery.Wire) :
    (c.stopSending h errCode wire).2.reaches = c.reaches := by
  rcases stopSending_cases c h errCode wire with hcalm | hcalm
  · exact hcalm.reaches
  · exact hcalm.reaches.trans (modifyStream_kept c h fun _ => rfl)

theorem recv_reaches (c : Conn) (h : ℕ) : (c.recv h).2.reaches = c.reaches := by
  unfold recv
  split
  · rfl
  rename_i s hs
  have hread : (c.modifyStream h fun u => { u with recv := s.recv.read.2 }).reaches =
      c.reaches := by
    rw [reaches, modifyStream, Modify.modify_congr hs (g := fun u => { u with
      recv := u.recv.read.2 }) rfl]
    exact modifyStream_kept c h fun _ => rfl
  have hgrant : ∀ d : Conn, (d.modifyStream h grantStream).reaches = d.reaches := by
    intro d
    rw [funext grantStream_eq]
    exact modifyStream_kept d h fun _ => rfl
  dsimp only
  split_ifs
  · unfold onStreamConsumed grantConn
    dsimp only
    split_ifs
    · exact hread
    · exact (hgrant _).trans hread
    · exact (hgrant _).trans hread
  · exact hread

/-! ## What the early checks read -/

theorem Kept.same (hk : c.Kept p) (id : ℕ) :
    c.sendOnlyStream id = (new p).sendOnlyStream id ∧
      c.exceedsUniStreamLimit id = (new p).exceedsUniStreamLimit id := by
  unfold sendOnlyStream exceedsUniStreamLimit recvOnlyStream ours
  rw [hk.params]
  exact ⟨rfl, rfl⟩

/-- A stream is accepted within the limit. -/
theorem onUnknownStream_limit {d : Conn} (h : c.onUnknownStream id = .ok (some d)) :
    c.exceedsUniStreamLimit id = false := by
  by_contra hexceeds
  simp only [exceedsUniStreamLimit, recvOnlyStream, Bool.not_eq_false, Bool.and_eq_true,
    Bool.not_eq_true', decide_eq_true_eq] at hexceeds
  simp [onUnknownStream, acceptPeerUniStream, hexceeds, Except.map] at h

/-- `OnStream` past its first check: the frame goes to the stream there is or is made, or only
that stream may be new. -/
theorem onStream_cases (hsend : c.sendOnlyStream id = false) (offset : ℕ) (fin : Bool)
    (data : Bytes) :
    (∃ h s, (c.prepared id).lookup id = some (h, s) ∧
      c.onStream id offset fin data = (c.prepared id).receiveOn h s offset fin data) ∨
    (c.prepared id).lookup id = none ∧ (c.onStream id offset fin data).2 = c.prepared id := by
  unfold onStream prepared
  rw [hsend]
  cases hl : c.lookup id with
  | some hs => exact .inl ⟨hs.1, hs.2, hl, rfl⟩
  | none =>
    cases hu : c.onUnknownStream id with
    | error err => exact .inr ⟨hl, rfl⟩
    | ok made =>
      cases made with
      | none => exact .inr ⟨hl, rfl⟩
      | some d =>
        dsimp only
        cases hd : d.lookup id with
        | none => exact .inr ⟨rfl, rfl⟩
        | some hs => exact .inl ⟨hs.1, hs.2, rfl, rfl⟩

end Conn

/-! ## Runs -/

/-- A connection, and what the frames it accepted have said of each stream. -/
structure Told where
  conn : Conn
  log : ℕ → List Extent

namespace Told

open Quic.Conn (Op declares reaches)

variable {p : Params} {c c' : Conn} {s : Stream} {h id : ℕ} {t : Told} {logs : ℕ → List Extent}

/-- The log after a frame: one that is accepted is added to the log of its stream. -/
def note (t : Told) (op : Op) : ℕ → List Extent :=
  match t.conn.declares op with
  | none => t.log
  | some (h, e) =>
    if t.conn.answer op = none then Function.update t.log h (t.log h ++ [e]) else t.log

def step (t : Told) (op : Op) : Option Told := (t.conn.step op).map fun c => ⟨c, t.note op⟩

/-- The connection limit on receiving is any number: 0 turns the limits off. -/
def system (params : Params) (connRecvMax : ℕ) : System Told Op :=
  ⟨⟨{ Conn.new params with connRecvMax := connRecvMax }, fun _ => []⟩, step⟩

/-- The log of a handle is empty where there is no stream. A stream has an account of it, was
made within the limit, and has an empty log if it only sends. -/
def Sound (p : Params) (log : List Extent) : Option (ℕ × Reach) → Prop
  | none => log = []
  | some x => Spans log x.2 ∧ (Conn.new p).exceedsUniStreamLimit x.1 = false ∧
    ((Conn.new p).sendOnlyStream x.1 = true → log = [])

/-- Every handle has a sound log. -/
def Logged (p : Params) (logs : ℕ → List Extent) (c : Conn) : Prop :=
  ∀ h, Sound p (logs h) c.reaches[h]?

theorem Logged.add (hl : Logged p logs c) {sendMax : ℕ}
    (hstreams : c'.streams = c.streams ++ [Stream.new id sendMax])
    (hid : (Conn.new p).exceedsUniStreamLimit id = false) : Logged p logs c' := by
  have hreaches : c'.reaches = c.reaches ++ [(id, (0, false, 0))] := by
    rw [reaches, hstreams, List.map_append]
    rfl
  intro h
  have hh := hl h
  rw [hreaches]
  rcases Nat.lt_or_ge h c.reaches.length with hlt | hge
  · rwa [List.getElem?_append_left hlt]
  · -- nothing was said of a handle that is not there
    rw [List.getElem?_eq_none hge] at hh
    have hnil : logs h = [] := hh
    rw [List.getElem?_append_right hge, hnil]
    cases h - c.reaches.length with
    | zero => exact ⟨⟨by simp, by simp, by simp⟩, hid, fun _ => rfl⟩
    | succ k => exact rfl

structure Inv (p : Params) (t : Told) : Prop where
  kept : t.conn.Kept p
  logged : Logged p t.log t.conn

/-- Accepting a stream of the peer keeps the invariant. -/
theorem Inv.prepared (hi : Inv p ⟨c, logs⟩) (id : ℕ) : Inv p ⟨c.prepared id, logs⟩ := by
  unfold Conn.prepared
  split
  · rename_i d _ hd
    have hid := Conn.onUnknownStream_limit hd
    rw [(hi.kept.same id).2] at hid
    have hkept := hi.kept.accept hd
    rcases Conn.onUnknownStream_ok hd with ⟨_, uni, bidi, rfl⟩
    exact ⟨hkept, hi.logged.add rfl hid⟩
  · exact hi

theorem Inv.lookup (hi : Inv p t) (hl : t.conn.lookup id = some (h, s)) :
    t.conn.reaches[h]? = some (id, s.recv.reach) ∧ Sound p (t.log h) (some (id, s.recv.reach)) := by
  rcases hi.kept.routed.lookup hl with ⟨hs, rfl⟩
  have hget : t.conn.reaches[h]? = some (s.id, s.recv.reach) := by
    rw [reaches, List.getElem?_map, hs]
    rfl
  exact ⟨hget, hget ▸ hi.logged h⟩

/-- The frame is noted soundly, and refused if it contradicts the log. -/
def Weighed (p : Params) (t : Told) (op : Op) (c' : Conn) : Prop :=
  Logged p (t.note op) c' ∧ ∀ h e, t.conn.declares op = some (h, e) →
    ¬ Agree (t.log h ++ [e]) →
      t.conn.answer op = some .finalSize ∨ t.conn.answer op = some .flowControl

variable {op : Op}

/-- A step that says nothing, or that is refused before it is weighed on an empty log. -/
theorem weighed_silent (hl : Logged p t.log c')
    (hlog : ∀ h e, t.conn.declares op = some (h, e) → t.log h = [] ∧ t.conn.answer op ≠ none) :
    Weighed p t op c' := by
  constructor
  · unfold note
    split
    · exact hl
    · rename_i hsome
      rw [if_neg (hlog _ _ hsome).2]
      exact hl
  · intro h e hsome hcontra
    rw [(hlog h e hsome).1] at hcontra
    exact absurd ⟨e.stop, by simp⟩ hcontra

theorem weighed_unsaid (hl : Logged p t.log c') (hnone : t.conn.declares op = none) :
    Weighed p t op c' := by
  apply weighed_silent hl
  intro h e hsome
  rw [hnone] at hsome
  cases hsome

/-- A frame is weighed on the connection `d`, where its stream has a record. -/
theorem Inv.weighed {e : Extent} {d : Conn} {result : Option Error × Conn}
    (hi : Inv p ⟨d, t.log⟩) (hrecv : (Conn.new p).sendOnlyStream id = false)
    (hl : d.lookup id = some (h, s)) (hdeclares : t.conn.declares op = some (h, e))
    (hanswer : t.conn.answer op = result.1)
    (hw : Spans (t.log h) s.recv.reach →
      d.Weighs h s.recv.reach (t.log h ++ [e]) result) :
    Weighed p t op result.2 := by
  rcases hi.lookup hl with ⟨hget, hspans, hlimit, _⟩
  rcases hw hspans with ⟨k, hreaches, hspan⟩
  constructor
  · intro i
    rw [hreaches, note, hdeclares, hanswer]
    dsimp only
    have hi := hi.logged i
    by_cases hih : i = h
    · subst hih
      rw [List.getElem?_modify_eq, hget]
      refine ⟨?_, hlimit, fun hsend => absurd hsend (hrecv ▸ Bool.false_ne_true)⟩
      dsimp only
      split_ifs with herr
      · rw [Function.update_self]
        rcases hspan with hspan | ⟨_, hrefused⟩
        · exact hspan
        · simp [herr] at hrefused
      · rcases hspan with hspan | ⟨hsame, _⟩
        · exact hspan.init
        · rw [hsame]
          exact hspans
    · rw [List.getElem?_modify_ne _ _ (Ne.symm hih)]
      split_ifs
      · rw [Function.update_of_ne hih]
        exact hi
      · exact hi
  · intro h' e' hsome hcontra
    rw [hdeclares, Option.some.injEq] at hsome
    rcases hsome with ⟨rfl, rfl⟩
    rw [hanswer]
    rcases hspan with hspan | ⟨_, hrefused⟩
    · exact absurd hspan.agree hcontra
    · exact hrefused

theorem Inv.onStream (hi : Inv p t) (id offset : ℕ) (fin : Bool) (data : Bytes) :
    Weighed p t (.onStream id offset fin data) (t.conn.onStream id offset fin data).2 := by
  have hprepared : Inv p ⟨t.conn.prepared id, t.log⟩ := hi.prepared id
  have hsame := (hi.kept.same id).1
  cases hsend : (Conn.new p).sendOnlyStream id with
  | true =>
    have hrefused : t.conn.onStream id offset fin data = (some .streamState, t.conn) :=
      if_pos (hsame.trans hsend)
    rw [hrefused]
    apply weighed_silent hi.logged
    intro h e hsome
    rcases Option.map_eq_some_iff.mp hsome with ⟨⟨h', s⟩, hl, heq⟩
    cases heq
    exact ⟨(hprepared.lookup hl).2.2.2 hsend, by simp [Conn.answer, hrefused]⟩
  | false =>
    rcases Conn.onStream_cases (hsame.trans hsend) offset fin data with
      ⟨h, s, hl, hresult⟩ | ⟨hl, hresult⟩
    · rw [hresult]
      apply hprepared.weighed hsend hl
      · rw [declares, hl]
        rfl
      · exact congrArg Prod.fst hresult
      · intro hspan
        exact Conn.receiveOn_weighs hspan _ h offset fin data
    · rw [hresult]
      refine weighed_unsaid hprepared.logged ?_
      rw [declares, hl]
      rfl

theorem Inv.onResetStream (hi : Inv p t) (id finalSize : ℕ) :
    Weighed p t (.onResetStream id finalSize) (t.conn.onResetStream id finalSize).2 := by
  rcases hi.kept.same id with ⟨hsame, hlimit⟩
  cases hl : t.conn.lookup id with
  | none =>
    apply weighed_unsaid
    · unfold Conn.onResetStream
      rw [hl]
      split_ifs <;> exact hi.logged
    · rw [declares, hl]
      rfl
  | some hs =>
    rcases hs with ⟨h, s⟩
    rcases hi.lookup hl with ⟨_, _, hwithin, hempty⟩
    cases hsend : (Conn.new p).sendOnlyStream id with
    | true =>
      have hrefused : t.conn.onResetStream id finalSize = (some .streamState, t.conn) :=
        if_pos (hsame.trans hsend)
      rw [hrefused]
      apply weighed_silent hi.logged
      intro h' e hsome
      simp only [declares, hl, Option.bind_some] at hsome
      split_ifs at hsome
      cases hsome
      exact ⟨hempty hsend, by simp [Conn.answer, hrefused]⟩
    | false =>
      cases hcomplete : s.recv.complete with
      | true =>
        apply weighed_unsaid
        · simpa [Conn.onResetStream, hsame, hsend, hlimit, hwithin, hl, hcomplete] using hi.logged
        · simp [declares, hl, hcomplete]
      | false =>
        refine hi.weighed (e := ⟨finalSize, true⟩) hsend hl ?_ rfl ?_
        · simp [declares, hl, hcomplete]
        · intro hspan
          exact Conn.onResetStream_weighs hspan hl hcomplete (hsame.trans hsend)
            (hlimit.trans hwithin)

theorem Inv.step (hi : Inv p t) (hstep : t.conn.step op = some c') : Inv p ⟨c', t.note op⟩ := by
  refine ⟨Conn.step_kept hi.kept hstep, ?_⟩
  have hnone : op.brings = false → t.conn.declares op = none := by
    intro hop
    cases op <;> first | rfl | cases hop
  cases Conn.step_stirs hstep with
  | calm hop hcalm =>
    refine (weighed_unsaid ?_ (hnone hop)).1
    rw [Logged, hcalm.reaches]
    exact hi.logged
  | opened hop _ hstreams _ _ _ _ _ hkind =>
    refine (weighed_unsaid (hi.logged.add hstreams ?_) (hnone hop)).1
    rw [← (hi.kept.same _).2, Conn.exceedsUniStreamLimit, hkind hi.kept.ours_bidi.2, Bool.false_and]
  | stopSending h errCode wire =>
    rw [Logged, Conn.stopSending_reaches]
    exact hi.logged
  | recv h =>
    rw [Logged, Conn.recv_reaches]
    exact hi.logged
  | onStream id offset fin data => exact (hi.onStream id offset fin data).1
  | onResetStream id finalSize => exact (hi.onResetStream id finalSize).1

theorem reachable_inv {connRecvMax : ℕ} (h : (system p connRecvMax).Reachable t) : Inv p t := by
  refine h.invariant ?_ ?_
  · have hkept := Conn.new_kept p
    exact ⟨⟨rfl, hkept.nextBidi, hkept.routed⟩, fun _ => rfl⟩
  · intro t op t' hi _ hstep
    rcases Option.map_eq_some_iff.mp hstep with ⟨c', hc', rfl⟩
    exact hi.step hc'

/-- A stream has one final size: the frames that were accepted agree on one, and a frame that
contradicts them is refused, whatever the order they arrive in. -/
theorem one_final_size {params : Params} {connRecvMax : ℕ} {t : Told}
    (ht : (system params connRecvMax).Reachable t) :
    (∀ h, Agree (t.log h)) ∧
      ∀ op h e, t.conn.declares op = some (h, e) → ¬ Agree (t.log h ++ [e]) →
        t.conn.answer op = some .finalSize ∨ t.conn.answer op = some .flowControl := by
  have hi := reachable_inv ht
  constructor
  · intro h
    have hlog := hi.logged h
    cases hx : t.conn.reaches[h]? with
    | none =>
      rw [hx] at hlog
      have hnil : t.log h = [] := hlog
      exact ⟨0, by simp [hnil]⟩
    | some x =>
      rw [hx] at hlog
      exact hlog.1.agree
  · intro op
    cases op with
    | onStream id offset fin data => exact (hi.onStream id offset fin data).2
    | onResetStream id finalSize => exact (hi.onResetStream id finalSize).2
    | _ => intro h e hsome; cases hsome

/-- Two frames with a gap between them, the second with FIN: a reset at 7 is refused. -/
theorem one_final_size_gap :
    ∃ t, (system Conn.smallServer 0).Reachable t ∧ t.log 0 = [⟨3, false⟩, ⟨5, true⟩] ∧
      Agree (t.log 0) ∧ (t.conn.answer (.onResetStream 0 7) = some .finalSize ∨
        t.conn.answer (.onResetStream 0 7) = some .flowControl) := by
  have hrun : ∃ t, (system Conn.smallServer 0).Reachable t ∧ t.log 0 = [⟨3, false⟩, ⟨5, true⟩] ∧
      t.conn.declares (.onResetStream 0 7) = some (0, ⟨7, true⟩) := by
    apply System.exists_reachable [.onStream 0 0 false [1, 2, 3], .onStream 0 4 true [5]]
    decide +kernel
  rcases hrun with ⟨t, ht, hlog, hdeclares⟩
  rcases one_final_size ht with ⟨hagree, hrefused⟩
  refine ⟨t, ht, hlog, hagree 0, hrefused _ 0 _ hdeclares ?_⟩
  rw [hlog]
  rintro ⟨size, hsize⟩
  have hfin := (hsize ⟨5, true⟩ (by simp)).2 rfl
  have hreset := (hsize ⟨7, true⟩ (by simp)).2 rfl
  simp only at hfin hreset
  omega

end Told

end Quic
