import Drunix.Lib.Transition
import Drunix.Ledger.Validation.PvtSteps

namespace Drunix.Ledger.Validation

open Lib Proto Vanilla Outcome List

theorem derivePvtDataNs_eq (ns coll : Bytes) : derivePvtDataNs ns coll = ns ++ 0x24 :: 0x24 :: 0x70 :: coll := by
  have h : ascii "$$p" = [0x24, 0x24, 0x70] := by decide
  simp [derivePvtDataNs, h]

variable {k : CompositeKey} {blk : LedgerBlock} {db : StateDB} {u : PublicAndHashUpdates}
  {pvtdata : UInt64 → Option TxPvtData}

theorem zero_notMem_derivePvtDataNs (hk : k.WellNamed) : 0x00 ∉ derivePvtDataNs k.ns k.coll := by
  rw [derivePvtDataNs_eq]
  simp [hk.ns_zero, hk.coll_zero]

theorem pvtDataKey_inj {k' : CompositeKey} (hk : k.WellNamed) (hk' : k'.WellNamed) (h : pvtDataKey k = pvtDataKey k') :
    k = k' := by
  obtain ⟨hns, hky⟩ := encodeDataKey_inj (zero_notMem_derivePvtDataNs hk) (zero_notMem_derivePvtDataNs hk') h
  rw [derivePvtDataNs_eq, derivePvtDataNs_eq] at hns
  obtain ⟨hns, hc⟩ := append_cons_inj hk.ns_dollar hk'.ns_dollar hns
  obtain ⟨ns', coll', key'⟩ := k'
  cases hns
  cases hc
  cases hky
  rfl

theorem dataKey_ne_pvtDataKey {c : CompositeKey} (hc : c.WellNamed) (hk : k.WellNamed) : c.dataKey ≠ pvtDataKey k := by
  intro h
  by_cases hcl : c.coll = []
  · rw [CompositeKey.dataKey, if_pos hcl] at h
    have hns := (encodeDataKey_inj hc.ns_zero (zero_notMem_derivePvtDataNs hk) h).1
    rw [derivePvtDataNs_eq] at hns
    exact hc.ns_dollar (by rw [hns]; simp)
  · rw [CompositeKey.dataKey_hashed hcl] at h
    have hns := (encodeDataKey_inj (zero_notMem_deriveHashedDataNs hc.ns_zero hc.coll_zero)
      (zero_notMem_derivePvtDataNs hk) h).1
    rw [deriveHashedDataNs_eq, derivePvtDataNs_eq] at hns
    obtain ⟨_, hr⟩ := append_cons_inj hc.ns_dollar hk.ns_dollar hns
    cases hr

def NamedUpdates (u : PublicAndHashUpdates) : Prop :=
  ∀ c, u.get c ≠ none → c.WellNamed

def NamedKeys (p : PvtUpdates) : Prop :=
  ∀ k, p.lookup k ≠ none → k.WellNamed

theorem NamedUpdates.applyView {u' : PublicAndHashUpdates} {v : TxView} (hu : NamedUpdates u)
    (hv : ∀ e ∈ v.ops, e.1.WellNamed) (h : applyView blk db u v = .ok u') : NamedUpdates u' := by
  obtain ⟨txHeight, _, h⟩ := bind_eq_ok.mp h
  intro c hc
  rw [get_of_applyLtxWriteSet h c, lookup_applyLtxRwset] at hc
  by_cases hnil : opsFor v.ops c = []
  · rw [if_pos hnil] at hc
    exact hu c hc
  · obtain ⟨e, he, rfl⟩ := exists_of_opsFor_ne_nil hnil
    exact hv e he

theorem namedUpdates_new : NamedUpdates newPubAndHashUpdates := by
  intro c hc
  exact absurd (newPubAndHashUpdates_get c) hc

section

variable {sha256 : Bytes → Bytes} {unmarshalKVRWSet : Bytes → Option KVRWSet}

variable {pvtRWSet : List CollPvtRwSet} {p : PvtUpdates}

theorem NamedKeys.addPvtRWSetToPvtUpdateBatch (hp : NamedKeys p)
    (hst : ∀ c ∈ pvtRWSet, ∀ key, CompositeKey.WellNamed ⟨c.ns, c.coll, key⟩) (ver : Version) :
    NamedKeys (addPvtRWSetToPvtUpdateBatch pvtRWSet p ver) := by
  refine foldlRecOn (pvtWrites pvtRWSet) _ hp fun p hp e he k hk => ?_
  obtain ⟨c, hc, he⟩ := mem_flatMap.mp he
  obtain ⟨w, _, rfl⟩ := mem_map.mp he
  rw [AMap.lookup_insert_eq] at hk
  split_ifs at hk with hke
  · exact hke ▸ hst c hc w.key
  · exact hp k hk

theorem namedKeys_of_preparePvtBatch {num : UInt64} {txs : List PvtTx}
    (hnm : ∀ i txPvtdata writeSet, pvtdata i = some txPvtdata → txPvtdata.writeSet = some writeSet →
      ∀ c ∈ writeSet.collections, CompositeKey.WellNamed ⟨c.ns, c.coll, []⟩)
    (h : preparePvtBatch sha256 unmarshalKVRWSet u db num txs pvtdata = .ok p) : NamedKeys p := by
  obtain ⟨⟨q, ks⟩, ha, hi⟩ := bind_eq_ok.mp h
  have hq : NamedKeys q ∧ ∀ k ∈ ks, k.WellNamed := by
    refine foldlM_invariant (fun acc : PvtUpdates × List CompositeKey => NamedKeys acc.1 ∧ ∀ k ∈ acc.2, k.WellNamed)
      ?_ ⟨fun k hk => absurd (AList.lookup_empty k) hk, fun k hk => absurd hk not_mem_nil⟩ ha
    intro tx _ acc acc' hac htx
    rcases addTxPvtData_eq_ok (fun _ => []) htx with ⟨rfl, _⟩ | ⟨txPvtdata, pvtRWSet, hu, hse, rfl, _⟩
    · exact hac
    · rw [usedPvtData] at hu
      split at hu
      · have hcl : ∀ c ∈ pvtRWSet, ∀ key, CompositeKey.WellNamed ⟨c.ns, c.coll, key⟩ := by
          intro c hc key
          obtain ⟨ws, hws, hse⟩ := bind_eq_ok.mp hse
          rw [deref_eq_ok] at hws
          obtain ⟨c', hc', hd⟩ := exists_of_mem_mapM hse hc
          obtain ⟨kvRwSet, _, hd⟩ := bind_eq_ok.mp hd
          cases hd
          obtain ⟨hz, hdl, hcl⟩ := hnm _ txPvtdata ws hu hws c' hc'
          exact ⟨hz, hdl, hcl⟩
        refine ⟨hac.1.addPvtRWSetToPvtUpdateBatch hcl _, forall_mem_append.mpr ⟨hac.2, fun k hk => ?_⟩⟩
        obtain ⟨c, hc, hk⟩ := mem_flatMap.mp hk
        obtain ⟨w, _, rfl⟩ := mem_map.mp hk
        exact hcl c hc w.key
      · cases hu
  refine foldlM_invariant NamedKeys ?_ hq.1 hi
  intro k hk p₁ p₂ hp₁ hst k' hk'
  by_cases hne : k' = k
  · exact hne ▸ hq.2 k (mem_dedup.mp hk)
  · rw [lookup_incrementVersion_of_ne hst hne] at hk'
    exact hp₁ k' hk'

end

section

variable {hashFunc : Bytes → Bytes} {serializeKVReads : List KVRead → Bytes} {store : StateStore} {sha256 : Bytes → Bytes}
  {serialize : List KVMetadataEntry → Bytes} {c : CompositeKey} {b : Block} {codes : List TxValidationCode}

theorem NamedBlock.namedUpdates (hnm : NamedBlock sha256 serialize blk pvtdata)
    (h : (valid (blk.views sha256 serialize) codes).foldlM (applyView blk db) newPubAndHashUpdates = .ok u) :
    NamedUpdates u := by
  refine foldlM_invariant NamedUpdates (fun v hv u₁ u₂ hu₁ hvw => ?_) namedUpdates_new h
  exact hu₁.applyView (hnm.ops v (mem_of_mem_valid hv)) hvw

theorem mem_purgedKeys_of_prepareTxs {doMVCC : Bool} {txs : List Transaction} {u' : PublicAndHashUpdates}
    {tracker tracker' : PurgeTracker}
    (h : prepareTxs hashFunc serializeKVReads store sha256 serialize b doMVCC u tracker txs = .ok (codes, u', tracker'))
    (hc : tracker'.lookup c ≠ none) :
    tracker.lookup c ≠ none ∨ c ∈ (valid txs codes).flatMap fun tx => purgedKeys tx.rwset := by
  induction txs generalizing u tracker codes with
  | nil =>
    cases h
    exact .inl hc
  | cons tx txs ih =>
    obtain ⟨code, ⟨u₁, tracker₁⟩, codes', hp, hr, rfl⟩ := mapAccumM_cons_eq_ok.mp h
    rw [valid_cons]
    obtain ⟨_, ⟨hvl, txHeight, _, _, rfl⟩ | ⟨hi, _, rfl⟩⟩ := prepareTx_eq_ok_iff.mp hp
    · rw [if_pos hvl, flatMap_cons, mem_append]
      rcases ih hr with hb | hm
      · rw [PurgeTracker.update, AMap.lookup_foldl_insert] at hb
        by_cases hm : c ∈ purgedKeys tx.rwset
        · exact .inr (.inl hm)
        · rw [if_neg hm] at hb
          exact .inl hb
      · exact .inr (.inr hm)
    · rw [if_neg hi]
      exact ih hr

variable (sha256 serialize) in
theorem exists_op_of_mem_purgedKeys (hc : c ∈ (valid b.txs codes).flatMap fun tx => purgedKeys tx.rwset) :
    ∃ v ∈ valid (LedgerBlock.views sha256 serialize (.vanilla b)) codes, ∃ e ∈ v.ops, e.1 = c := by
  obtain ⟨tx, htx, hc⟩ := mem_flatMap.mp hc
  obtain ⟨ns, hns, hc⟩ := mem_flatMap.mp hc
  obtain ⟨coll, hcl, hc⟩ := mem_flatMap.mp hc
  obtain ⟨w, hw, rfl⟩ := mem_map.mp hc
  have hm := mem_map_of_mem (f := KVWriteHash.toKVWriteHash) (mem_filter.mp hw).1
  refine ⟨txView sha256 serialize tx, ?_, (_, hashedWriteOp sha256 w.toKVWriteHash),
    mem_flatMap.mpr ⟨ns, hns, mem_append_right _ ?_⟩, rfl⟩
  · rw [LedgerBlock.views, valid_map]
    exact mem_map_of_mem htx
  · exact mem_flatMap.mpr ⟨coll, hcl, mem_append_left _ (mem_map.mpr ⟨w.toKVWriteHash, hm, rfl⟩)⟩

end

section

variable {store : StateStore} {u : PublicAndHashUpdates} {p : PvtUpdates}

theorem wellNamed_of_mem (hk : k ∈ p) (hp : NamedKeys p) : k.WellNamed :=
  hp k fun hn => AList.lookup_eq_none.mp hn hk

theorem applyUpdates_db : (store.applyUpdates u p).db =
    u.hashUpdates.overlay (fun k => encodeDataKey (deriveHashedDataNs k.ns k.coll) k.key) VersionedValue.stored
      (p.overlay pvtDataKey VersionedValue.stored
        (u.publicUpdates.overlay (fun k => encodeDataKey k.1 k.2) VersionedValue.stored store.db)) := by
  rw [StateStore.applyUpdates, StateStore.putAll_db, StateStore.putAll_db, StateStore.putAll_db]

theorem applyUpdates_pvtDataKey (hu : NamedUpdates u) (hp : NamedKeys p) {pk : CompositeKey} (hpk : pk.WellNamed) :
    (store.applyUpdates u p).db (pvtDataKey pk) = latestPvt p store.db pk := by
  have hd : ∀ c : CompositeKey, c.WellNamed → c.dataKey ≠ pvtDataKey pk := fun _ hc => dataKey_ne_pvtDataKey hc hpk
  rw [applyUpdates_db, overlay_hashUpdates_frame hu hd, AMap.overlay_apply, overlay_publicUpdates_frame hu hd]
  · rfl
  · intro k hk heq
    exact pvtDataKey_inj (wellNamed_of_mem hk hp) hpk heq

theorem applyUpdates_dataKey (hu : NamedUpdates u) (hp : NamedKeys p) {c : CompositeKey} (hc : c.WellNamed) :
    (store.applyUpdates u p).db c.dataKey = latest u store.db c := by
  rw [applyUpdates_db, overlay_hashUpdates hu hc, AMap.overlay_of_notMem, overlay_publicUpdates hu hc]
  · split_ifs <;> rfl
  · intro k hk heq
    exact dataKey_ne_pvtDataKey hc (wellNamed_of_mem hk hp) heq.symm

end

structure PrivateKey extends CompositeKey where
  wellNamed : toCompositeKey.WellNamed
  coll_ne_nil : coll ≠ []

def PrivateKey.hashed (pk : PrivateKey) (sha256 : Bytes → Bytes) : CompositeKey :=
  hashedKey sha256 pk.toCompositeKey

section

variable {sha256 : Bytes → Bytes} {pk : PrivateKey}

theorem inStep_new (h : Synced sha256 (db (pvtDataKey pk.toCompositeKey)) (db (pk.hashed sha256).dataKey)) :
    InStep sha256 db pk.toCompositeKey newPubAndHashUpdates (∅, []) := by
  have hlt : latest newPubAndHashUpdates db (pk.hashed sha256) = db (pk.hashed sha256).dataKey := by
    rw [latest, newPubAndHashUpdates_get]
    rfl
  refine ⟨?_, ?_, .inr ?_⟩
  · intro c vv hvv
    rw [newPubAndHashUpdates_get] at hvv
    cases hvv
  · exact hlt ▸ h.1
  · exact hlt ▸ h.2

end

def examplePvtKey : PrivateKey where
  ns := ascii "cc"
  coll := ascii "c"
  key := ascii "k"
  wellNamed := ⟨by decide, by decide, by decide⟩
  coll_ne_nil := by decide

def examplePvtBlock (sparseblockchainFilter : Option SparseTxnFilter) : LedgerBlock :=
  .vanilla {
    num := 1
    sparseblockchainFilter
    txs := [{
      indexInBlock := 0
      validationCode := .valid
      rwset := ⟨[{
        nameSpace := ascii "cc"
        kvRwSet := {}
        collHashedRwSets := [{
          collectionName := ascii "c"
          hashedRwSet := { hashedWrites := [⟨⟨ascii "k", false, ascii "v"⟩, false⟩] }
          pvtRwSetHash := ascii "rw" }] }]⟩ }] }

def examplePvtData : UInt64 → Option TxPvtData :=
  fun i => if i = 0 then some ⟨some ⟨[⟨ascii "cc", [⟨ascii "c", ascii "rw"⟩]⟩]⟩⟩ else none

def exampleUnmarshal : Bytes → Option KVRWSet :=
  fun b => if b = ascii "rw" then some { writes := [⟨ascii "k", false, ascii "v"⟩] } else none

theorem examplePvtBlock_named (filter : Option SparseTxnFilter) :
    NamedBlock id (fun _ => []) (examplePvtBlock filter) examplePvtData where
  ops := by
    intro v hv e he
    cases mem_singleton.mp hv
    cases mem_singleton.mp he
    exact examplePvtKey.wellNamed
  pvtdata := by
    intro i txPvtdata writeSet hi hws c hc
    rw [examplePvtData] at hi
    split at hi
    · cases hi
      cases hws
      cases mem_singleton.mp hc
      exact ⟨examplePvtKey.wellNamed.ns_zero, examplePvtKey.wellNamed.ns_dollar, examplePvtKey.wellNamed.coll_zero⟩
    · cases hi

theorem examplePvtBlock_supplied (filter : Option SparseTxnFilter) :
    WritesSupplied id (fun _ => []) exampleUnmarshal (examplePvtBlock filter) [.valid] examplePvtData
      examplePvtKey.toCompositeKey := by
  intro v hv
  cases mem_singleton.mp hv
  exact ⟨.inr (.inl ⟨.upsert (ascii "v"), by decide⟩), by decide⟩

end Drunix.Ledger.Validation
