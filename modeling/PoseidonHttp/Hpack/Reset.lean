import PoseidonHttp.Hpack.Connection
import PoseidonHttp.Hpack.Streaming

/-!
# Reuse after Reset

An encoder and a decoder are used in any way, the decoder on any bytes, in blocks or in
fragments, and then both are reset. `Encoder.Reset` gives a new encoder back. `Decoder.Reset`
clears the table but not its maximum, which a size update of the peer may have changed:

* `reset_restores`: if the maximum is the default when the decoder is reset, the pair is a
  new one, and every block decodes to the fields it was written from.
* `reset_keeps_size_update`: after a size update it is not. The encoder uses all of its
  table again, and the decoder has evicted what the encoder refers to.
-/

namespace Hpack

open Header (Bytes IndexingMode Field indexIncremental)
open Transition

/-- `Reset`. -/
def Encoder.reset (e : Encoder) : Option Encoder :=
  (e.dt.clear.setMaxSize defaultMaxDynamicTableSize).map fun dt =>
    { dt := dt
      peerMaxSize := defaultMaxDynamicTableSize
      callerLimit := defaultMaxDynamicTableSize
      localLimit := defaultMaxDynamicTableSize
      pendingSizeUpdate := 0
      hasPendingUpdate := false }

/-! ## An encoder and a decoder in use -/

structure Pair where
  enc : Encoder
  session : Session

/-- A call on the encoder or on the decoder, whose limit is left alone. A visitor's own
state is the list of the fields it has been given. -/
inductive Call where
  | encodeBlock (fields : List Field)
  | writeField (f : Field)
  | setMaxDynamicTableSize (n : ℕ)
  | setMaxDynamicTableSizeLimit (n : ℕ)
  | decodeBlock (visit : Visitor (List Field) Unit) (block : Bytes)
  | begin
  | feed (visit : Visitor (List Field) Unit) (fragment : Bytes)
  | finish
  | resetEncoder
  | resetDecoder

namespace Pair

def init (hash : Bytes → UInt64) : Pair := ⟨.new hash, .new⟩

def step (s : Pair) : Call → Option Pair
  | .encodeBlock fields => (s.enc.encodeBlock fields).map fun r => { s with enc := r.2 }
  | .writeField f =>
    (s.enc.writeField f.name f.value f.indexing).map fun r => { s with enc := r.2 }
  | .setMaxDynamicTableSize n => (s.enc.setMaxDynamicTableSize n).map fun enc => { s with enc }
  | .setMaxDynamicTableSizeLimit n =>
    (s.enc.setMaxDynamicTableSizeLimit n).map fun enc => { s with enc }
  | .decodeBlock visit block =>
    some { s with session := (s.session.decodeBlock visit [] block).1.1 }
  | .begin => some { s with session := s.session.begin }
  | .feed visit fragment => some { s with session := (s.session.feed visit [] fragment).1.1 }
  | .finish => some { s with session := (s.session.finish (E := Unit)).1 }
  | .resetEncoder => s.enc.reset.map fun enc => { s with enc }
  | .resetDecoder => some { s with session := s.session.reset }

def system (hash : Bytes → UInt64) : System Pair Call := ⟨init hash, step⟩

end Pair

/-- The exchange of blocks, from this encoder and this decoder on. -/
def Conn.resumed (enc : Encoder) (dec : Decoder) : System Conn Op :=
  ⟨⟨enc, dec, [], [], [], false⟩, Conn.step⟩

/-! ## What Reset relies on -/

namespace Encoder

variable {e e' : Encoder} {bytes : Bytes}

theorem hash_recomputeLocalLimit (h : e.recomputeLocalLimit = some e') :
    e'.dt.hash = e.dt.hash := by
  unfold recomputeLocalLimit at h
  dsimp only at h
  split_ifs at h <;> first
    | rw [Option.some.inj h]
    | (simp only [Option.map_eq_some_iff] at h
       rcases h with ⟨dt, hset, rfl⟩
       exact DynamicTable.hash_setMaxSize hset)

theorem hash_writeFieldAlreadyFlushedSize {name value : Bytes} {mode : IndexingMode}
    (h : e.writeFieldAlreadyFlushedSize name value mode = some (bytes, e')) :
    e'.dt.hash = e.dt.hash := by
  unfold writeFieldAlreadyFlushedSize at h
  dsimp only at h
  split at h
  · rw [(Prod.mk.inj (Option.some.inj h)).2]
  simp only [bind, Option.bind_eq_some_iff] at h
  rcases h with ⟨found, _, h⟩
  split at h
  · rw [(Prod.mk.inj (Option.some.inj h)).2]
  split at h
  · -- the one branch that inserts
    simp only [Option.bind_eq_some_iff] at h
    rcases h with ⟨dt, hadd, h⟩
    rw [← (Prod.mk.inj (Option.some.inj h)).2]
    exact DynamicTable.hash_add hadd
  · rw [(Prod.mk.inj (Option.some.inj h)).2]

theorem hash_writeFields {fields : List Field} (h : e.writeFields fields = some (bytes, e')) :
    e'.dt.hash = e.dt.hash := by
  induction fields generalizing e bytes with
  | nil => rw [(Prod.mk.inj (Option.some.inj h)).2]
  | cons f fields ih =>
    simp only [writeFields, bind, Option.bind_eq_some_iff] at h
    rcases h with ⟨⟨b₁, e₁⟩, hfirst, ⟨b₂, e₂⟩, hrest, h⟩
    rcases (Prod.mk.inj (Option.some.inj h)).2 with rfl
    rw [ih hrest, hash_writeFieldAlreadyFlushedSize hfirst]

theorem hash_maybeEmitSizeUpdate (e : Encoder) : e.maybeEmitSizeUpdate.2.dt.hash = e.dt.hash := by
  unfold maybeEmitSizeUpdate
  split_ifs <;> rfl

theorem hash_encodeBlock {fields : List Field} (h : e.encodeBlock fields = some (bytes, e')) :
    e'.dt.hash = e.dt.hash := by
  simp only [encodeBlock, bind, Option.bind_eq_some_iff] at h
  rcases h with ⟨⟨b₁, e₁⟩, hfields, h⟩
  rw [← (Prod.mk.inj (Option.some.inj h)).2, hash_writeFields hfields, hash_maybeEmitSizeUpdate]

/-- A reset encoder is a new one with the same hash function. -/
theorem reset_eq {hash : Bytes → UInt64} (h : e.dt.hash = some hash) : e.reset = some (.new hash) := by
  simp only [DynamicTable.hash, Option.map_eq_some_iff] at h
  rcases h with ⟨x, hx, rfl⟩
  unfold reset DynamicTable.clear
  rw [hx]
  rfl

end Encoder

/-- What no call changes: the encoder's hash function and the decoder's configuration. -/
structure Pair.Kept (hash : Bytes → UInt64) (s : Pair) : Prop where
  encoder : s.enc.dt.hash = some hash
  decoder : Decoder.Configured .new s.session.dec

theorem Pair.Kept.step {hash : Bytes → UInt64} {s s' : Pair} {a : Call} (h : s.Kept hash)
    (hs : s.step a = some s') : s'.Kept hash := by
  rcases h with ⟨henc, hdec⟩
  cases a with
  | encodeBlock fields =>
    simp only [Pair.step, Option.map_eq_some_iff] at hs
    rcases hs with ⟨r, hr, rfl⟩
    exact ⟨(Encoder.hash_encodeBlock hr).trans henc, hdec⟩
  | writeField f =>
    simp only [Pair.step, writeField_eq, Option.map_eq_some_iff] at hs
    rcases hs with ⟨r, hr, rfl⟩
    exact ⟨(Encoder.hash_encodeBlock hr).trans henc, hdec⟩
  | setMaxDynamicTableSize n | setMaxDynamicTableSizeLimit n =>
    simp only [Pair.step, Option.map_eq_some_iff] at hs
    rcases hs with ⟨enc, hset, rfl⟩
    exact ⟨(Encoder.hash_recomputeLocalLimit hset).trans henc, hdec⟩
  | decodeBlock visit block =>
    rw [← Option.some.inj hs]
    exact ⟨henc, hdec.trans (Session.configured_decodeBlock visit ..)⟩
  | begin =>
    rw [← Option.some.inj hs]
    exact ⟨henc, hdec.maxLocal, hdec.maxListSize, hdec.hash⟩
  | feed visit fragment =>
    rw [← Option.some.inj hs]
    exact ⟨henc, hdec.trans (Session.configured_feed visit ..)⟩
  | finish =>
    rw [← Option.some.inj hs]
    refine ⟨henc, ?_⟩
    dsimp only [Session.finish]
    split_ifs <;> exact hdec
  | resetEncoder =>
    simp only [Pair.step, Encoder.reset_eq henc, Option.map_some, Option.some.injEq] at hs
    rw [← hs]
    exact ⟨rfl, hdec⟩
  | resetDecoder =>
    rw [← Option.some.inj hs]
    exact ⟨henc, hdec.maxLocal, hdec.maxListSize, by simpa [Session.reset] using hdec.hash⟩

/-- A decoder is a new one after its reset if its table has the default maximum. -/
theorem Session.reset_eq {s : Session} (hset : Decoder.Configured .new s.dec)
    (hmax : s.dec.dt.maxSize = defaultMaxDynamicTableSize) : s.reset = .new := by
  have hindex : s.dec.dt.index = none := Option.map_eq_none_iff.mp hset.hash
  have hlocal : s.dec.maxLocal = defaultMaxDynamicTableSize := hset.maxLocal
  have hlist : s.dec.maxListSize = 0 := hset.maxListSize
  simp [Session.reset, Session.new, DynamicTable.clear, Decoder.new, DynamicTable.new, hindex, hmax,
    hlocal, hlist]

/-- However the two were used, once both are reset while the decoder's table has the default
maximum they are a new pair, and every state that an exchange under the named modes reaches
from there is one where they agree. -/
theorem reset_restores (hash : Bytes → UInt64) {s : Pair} (h : (Pair.system hash).Reachable s)
    (hmax : s.session.dec.dt.maxSize = defaultMaxDynamicTableSize) :
    s.enc.reset = some (.new hash) ∧ s.session.reset = .new ∧
      ∀ enc, s.enc.reset = some enc → ∀ c : Conn,
        (Conn.resumed enc s.session.reset.dec).ReachableBy Regular c → c.Agreed := by
  have hset : s.Kept hash :=
    h.invariant ⟨rfl, .refl _⟩ fun _ _ _ hinv _ hs => hinv.step hs
  have henc := Encoder.reset_eq hset.encoder
  have hdec := Session.reset_eq hset.decoder hmax
  refine ⟨henc, hdec, ?_⟩
  intro enc henc' c hc
  rcases Option.some.inj (henc.symm.trans henc') with rfl
  rw [hdec] at hc
  have hinv : c.Inv := hc.invariant (Conn.inv_init hash) fun _ _ _ hinv ha hs => hinv.step ha hs
  exact hinv.agreed

/-- The visitor that takes every field. -/
def takeAll : Visitor (List Field) Unit := fun v f => (v ++ [f], none)

/-- A field that takes 43 bytes of a table. -/
def narrowField (c : UInt8) : Field := ⟨List.replicate 10 c, [c], indexIncremental⟩

/-- An insertion, a block cut short in a session, and a size update to the default. -/
def usedRun : List Call :=
  [.setMaxDynamicTableSizeLimit 64, .setMaxDynamicTableSizeLimit 4096,
    .encodeBlock [narrowField 0x61],
    .decodeBlock takeAll [0x3f, 0xe1, 0x1f, 0x40, 0x01, 0x61, 0x01, 0x62], .begin,
    .feed takeAll [0x40, 0x0a]]

theorem reset_restores_usedRun :
    ∃ s, (Pair.system fun _ => 0).run (Pair.init fun _ => 0) usedRun = some s ∧
      s.session.streaming = true ∧ s.session.dec.dt.count = 1 ∧
      s.enc.reset = some (.new fun _ => 0) ∧ s.session.reset = .new := by
  have hrun : ∃ s, (Pair.system fun _ => 0).run (Pair.init fun _ => 0) usedRun = some s ∧
      s.session.streaming = true ∧ s.session.dec.dt.count = 1 ∧
      s.session.dec.dt.maxSize = defaultMaxDynamicTableSize := by
    decide +kernel
  rcases hrun with ⟨s, hs, hstreaming, hcount, hmax⟩
  have hreset := reset_restores (fun _ => 0) (System.reachable_of_run hs) hmax
  exact ⟨s, hs, hstreaming, hcount, hreset.1, hreset.2.1⟩

/-- The encoder's limit is lowered, and a block with the size update is decoded. -/
def shrunkRun : List Call :=
  [.setMaxDynamicTableSizeLimit 64, .encodeBlock [], .decodeBlock takeAll [0x3f, 0x21]]

/-- Two insertions, and the first field again. -/
def reuseRun : List Op :=
  [.encodeBlock [narrowField 0x61], .endBlock, .encodeBlock [narrowField 0x62], .endBlock,
    .encodeBlock [narrowField 0x61], .endBlock]

/-- The block decoded is the one encoded. The decoder keeps the maximum of 64 through its
reset, so it evicts the first field, and the third block, an index into the encoder's table,
is refused. -/
theorem reset_keeps_size_update :
    (((Encoder.new fun _ => 0).setMaxDynamicTableSizeLimit 64).bind fun e =>
      (e.encodeBlock []).map Prod.fst) = some [0x3f, 0x21] ∧
    ∃ s, (Pair.system fun _ => 0).run (Pair.init fun _ => 0) shrunkRun = some s ∧
      ∃ enc, s.enc.reset = some enc ∧
        ∃ c, (Conn.resumed enc s.session.reset.dec).ReachableBy Regular c ∧
          c.delivered.map Delivery.fault = [none, none, some (.err .invalidIndex)] := by
  have hrun : (((Pair.system fun _ => 0).run (Pair.init fun _ => 0) shrunkRun).bind fun s =>
      s.enc.reset.bind fun enc =>
        ((Conn.resumed enc s.session.reset.dec).run (Conn.resumed enc s.session.reset.dec).init
          reuseRun).bind fun c =>
        if c.delivered.map Delivery.fault = [none, none, some (.err .invalidIndex)] then some ()
        else none) = some () := by
    decide +kernel
  simp only [Option.bind_eq_some_iff, Option.ite_none_right_eq_some, and_true] at hrun
  rcases hrun with ⟨s, hs, enc, henc, c, hc, hfault⟩
  refine ⟨by decide +kernel, s, hs, enc, henc, c, ?_, hfault⟩
  refine System.reachableBy_run .init (System.runMeets_of_forall (fun _ a ha => ?_) _) hc
  simp only [reuseRun, List.mem_cons, List.not_mem_nil, or_false] at ha
  rcases ha with rfl | rfl | rfl | rfl | rfl | rfl <;> simp [Regular, narrowField] <;> decide

end Hpack
