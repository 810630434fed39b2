import Drunix.Ledger.Expiry.Chain

namespace Drunix.Ledger.Expiry

open Lib Proto Validation Outcome List

section

variable {policy : BTLPolicy} {sha256 : Bytes → Bytes} {c k : CompositeKey} {btl : UInt64} {s t : PeerState}
  {u : PublicAndHashUpdates} {p : PvtUpdates} {vv : VersionedValue}

theorem writtenBy_of_latest {n : UInt64} {update row : Option VersionedValue} {before : Option UInt64}
    (hl : update.elim row VersionedValue.stored = some vv) (hrow : row = some vv → before = some vv.version.blockNum)
    (hv : update = some vv → vv.value ≠ none → vv.version.blockNum = n) :
    writtenBy n update before = some vv.version.blockNum := by
  cases update with
  | none => exact hrow hl
  | some vv' =>
    change vv'.stored = some vv at hl
    rw [VersionedValue.stored] at hl
    split_ifs at hl with hvl
    cases hl
    exact writtenBy_eq_some.mpr (.inl ⟨vv, rfl, hvl, hv rfl hvl⟩)

/-- Expiry takes rows away and changes none. -/
theorem ExpiryInv.rows_of_commit (hs : ExpiryInv policy sha256 c btl s) (hc : c.WellNamed)
    (hb : BatchInStep sha256 c s.height u p) (hk : hashedKey sha256 k = c) (hky : k.key ≠ [])
    (hcm : Expiry.commit policy sha256 s s.height u p = .ok t) :
    (t.store.db c.dataKey = none ∨ t.store.db c.dataKey = latest u s.store.db c) ∧
      (t.store.db (pvtDataKey k) = none ∨ t.store.db (pvtDataKey k) = latestPvt p s.store.db k) := by
  obtain ⟨schedule, _, rfl⟩ := hs.commit_eq_ok hcm
  have hu := hs.keeper.namedUpdates (p := p) hb.named
  have hp := hs.keeper.namedKeys (u := u) hb.pvtNamed
  have hkn : k.WellNamed := by
    rw [← hk] at hc
    exact ⟨hc.ns_zero, hc.ns_dollar, hc.coll_zero⟩
  dsimp only
  rw [applyUpdates_dataKey hu hp hc, applyUpdates_pvtDataKey hu hp hkn, latest, latestPvt]
  constructor
  · rw [PeerState.nextBatches, get_addExpiredEntries]
    cases s.expiring.toPurge.lookup c with
    | none => exact .inr rfl
    | some kv =>
      dsimp only [Option.elim_some]
      split_ifs
      · exact .inl rfl
      · exact .inr rfl
  · rw [PeerState.nextBatches, lookup_addExpiredEntries (fun c' kv hl => (hs.keeper.named_toPurge hl).2) hky]
    cases s.expiring.toPurge.lookup (hashedKey sha256 k) with
    | none => exact .inr rfl
    | some kv =>
      dsimp only [Option.elim_some]
      split_ifs
      · exact .inl rfl
      · exact .inr rfl

/-- The two rows have one version, so they expire with the same block. -/
theorem synced_commit (h : Synced sha256 (latestPvt p s.store.db k) (latest u s.store.db c))
    (hs : ExpiryInv policy sha256 c btl s) (ht : ExpiryInv policy sha256 c btl t) (hc : c.WellNamed) (hcoll : c.coll ≠ [])
    (hb : BatchInStep sha256 c s.height u p) (hk : hashedKey sha256 k = c) (hky : k.key ≠ [])
    (hcm : Expiry.commit policy sha256 s s.height u p = .ok t) :
    Synced sha256 (t.store.db (pvtDataKey k)) (t.store.db c.dataKey) := by
  obtain ⟨hrh, hrp⟩ := hs.rows_of_commit hc hb hk hky hcm
  cases hl : latest u s.store.db c with
  | none =>
    rw [hl] at h hrh
    have hp := Option.map_eq_none_iff.mp h.2
    rw [hp] at hrp
    rw [hrh.elim id id, hrp.elim id id]
    exact ⟨rfl, rfl⟩
  | some vv =>
    obtain ⟨vv', hvv', hvr⟩ := Option.map_eq_some_iff.mp (h.2.trans (by rw [hl]; rfl))
    have hwh := writtenBy_of_latest hl (hs.hash.version _) fun hg _ => hb.version c _ hcoll hg
    have hwp := writtenBy_of_latest hvv' ((hs.pvt k hk).version _) (hb.pvtVersion k _)
    obtain ⟨schedule, _, heq⟩ := hs.commit_eq_ok hcm
    have hh := ht.hash.present vv.version.blockNum (by rw [heq]; exact hwh)
    have hpp := (ht.pvt k hk).present vv.version.blockNum (by rw [heq, ← hvr]; exact hwp)
    have hsame := hpp.trans hh.symm
    rcases hrh with hrh | hrh <;> rcases hrp with hrp | hrp
    · rw [hrh, hrp]
      exact ⟨rfl, rfl⟩
    · rw [hrh, hrp, hvv'] at hsame
      simp at hsame
    · rw [hrh, hrp, hl] at hsame
      simp at hsame
    · rw [hrh, hrp]
      exact h

end

section

variable {hashFunc : Bytes → Bytes} {serializeKVReads : List KVRead → Bytes}
  {validateLtxRangeQuery : RangeQueryValidator} {sha256 : Bytes → Bytes} {serialize : List KVMetadataEntry → Bytes}
  {unmarshalKVRWSet : Bytes → Option KVRWSet} {policy : BTLPolicy} {pk : PrivateKey} {store : StateStore}
  {blk : LedgerBlock} {codes : List TxValidationCode} {pvtdata : UInt64 → Option TxPvtData} {u : PublicAndHashUpdates}
  {purges : PurgeTracker} {p : PvtUpdates}

theorem opsOn_ne_nil_of_mem_purgedBy {c : CompositeKey} (hcoll : c.coll ≠ [])
    (hst : ExpiresInStep sha256 serialize unmarshalKVRWSet c blk codes pvtdata) (hc : c ∈ purgedBy blk codes) :
    opsOn blk (valid (blk.views sha256 serialize) codes) c ≠ [] := by
  cases blk with
  | lite blk => cases hc
  | vanilla blk =>
    obtain ⟨v, hv, e, he, rfl⟩ := exists_op_of_mem_purgedKeys sha256 serialize hc
    obtain ⟨txNum, hh⟩ := hst.heights v hv ⟨e, he, hcoll⟩
    have ho : opsFor v.ops e.1 ≠ [] := by
      apply ne_nil_of_mem (a := e.2)
      exact mem_map.mpr ⟨e, mem_filter.mpr ⟨he, by simp⟩, rfl⟩
    obtain ⟨op, hop⟩ := Option.ne_none_iff_exists'.mp
      (show (applyLtxRwset v.ops).lookup e.1 ≠ none by rw [lookup_applyLtxRwset, if_neg ho]; simp)
    exact ne_nil_of_mem (a := (op, ⟨blk.num, txNum⟩)) (mem_opsOn.mpr ⟨v, hv, hh, hop⟩)

theorem synced_prepared (rawKeys : RawKeys sha256)
    (hs : Synced sha256 (store.db (pvtDataKey pk.toCompositeKey)) (store.db (pk.hashed sha256).dataKey))
    (hpr : validateAndPrepare hashFunc serializeKVReads validateLtxRangeQuery sha256 serialize unmarshalKVRWSet store true
      pvtdata blk = .ok (codes, u, purges, p))
    (hst : ExpiresInStep sha256 serialize unmarshalKVRWSet (pk.hashed sha256) blk codes pvtdata)
    (hsp : WritesSupplied sha256 serialize unmarshalKVRWSet blk codes pvtdata pk.toCompositeKey)
    (hh : WritersAtBlockHeight sha256 serialize unmarshalKVRWSet blk codes pvtdata pk.toCompositeKey) :
    Synced sha256 (latestPvt (purgeAppInitiatedPvtKeys rawKeys purges p) store.db pk.toCompositeKey)
      (latest u store.db (pk.hashed sha256)) := by
  obtain ⟨ha, hpv⟩ := exists_of_validateAndPrepare hpr
  obtain ⟨acc, had, hi⟩ := bind_eq_ok.mp hpv
  have hsy : Synced sha256 (latestPvt p store.db pk.toCompositeKey) (latest u store.db (pk.hashed sha256)) := by
    refine Synced.of_inStep pk.coll_ne_nil ((inStep_new hs).foldlM (fun v hv u u' acc acc' hin hvw htx => ?_) ha had) hi
    exact hin.step hvw htx (hsp v hv).1 (hsp v hv).2 (hh v hv)
  rcases lookup_purgeAppInitiatedPvtKeys rawKeys purges p pk.toCompositeKey with heq | ⟨ver, hvr, heq⟩
  · rw [latestPvt_congr heq]
    exact hsy
  · -- A purged hash is deleted by its block, and so is the key behind it.
    have hpu : pk.hashed sha256 ∈ purgedBy blk codes :=
      mem_purgedBy hpr (by rw [PrivateKey.hashed, hvr]; simp)
    rw [latest_of_last_delete ha (hst.deletes _ rfl (.inr hpu)) (opsOn_ne_nil_of_mem_purgedBy pk.coll_ne_nil hst hpu),
      latestPvt, heq]
    exact ⟨rfl, rfl⟩

variable (pk) in
/-- What the blocks of a run must do to the private key: its writes are supplied and have the height of the block, and
its expiry is scheduled with them. -/
structure ReadsInStep (sha256 : Bytes → Bytes) (serialize : List KVMetadataEntry → Bytes)
    (unmarshalKVRWSet : Bytes → Option KVRWSet) (blk : LedgerBlock) (codes : List TxValidationCode)
    (pvtdata : UInt64 → Option TxPvtData) : Prop where
  expires : ExpiresInStep sha256 serialize unmarshalKVRWSet (pk.hashed sha256) blk codes pvtdata
  supplied : WritesSupplied sha256 serialize unmarshalKVRWSet blk codes pvtdata pk.toCompositeKey
  heights : WritersAtBlockHeight sha256 serialize unmarshalKVRWSet blk codes pvtdata pk.toCompositeKey

/-- After every commit the private key and its hash have the same version, and the private value can be read. -/
theorem getPrivateData_of_reachable {btl : UInt64} (hbtl : policy.getBTL pk.ns pk.coll = some btl) (hky : pk.key ≠ [])
    (hinj : ∀ k, hashedKey sha256 k = pk.hashed sha256 → k = pk.toCompositeKey) {s : PeerState}
    (h : Reachable (fun s => s = PeerState.init) (PeerStep hashFunc serializeKVReads validateLtxRangeQuery sha256 serialize
      unmarshalKVRWSet policy (ReadsInStep pk sha256 serialize unmarshalKVRWSet)) s) :
    (s.store.db (pvtDataKey pk.toCompositeKey)).map VersionedValue.version =
        getKeyHashVersion s.store.db pk.ns pk.coll (sha256 pk.key) ∧
      ∃ value, getPrivateData sha256 s.store.db pk.toCompositeKey = .ok value ∧
        (s.store.db (pk.hashed sha256).dataKey).bind VersionedValue.value = value.map sha256 := by
  have hw : (pk.hashed sha256).WellNamed := ⟨pk.wellNamed.ns_zero, pk.wellNamed.ns_dollar, pk.wellNamed.coll_zero⟩
  obtain ⟨_, hsy⟩ : ExpiryInv policy sha256 (pk.hashed sha256) btl s ∧
      Synced sha256 (s.store.db (pvtDataKey pk.toCompositeKey)) (s.store.db (pk.hashed sha256).dataKey) := by
    refine h.invariant (fun s => ExpiryInv policy sha256 (pk.hashed sha256) btl s ∧ Synced sha256
      (s.store.db (pvtDataKey pk.toCompositeKey)) (s.store.db (pk.hashed sha256).dataKey)) ?_ ?_
    · rintro s rfl
      exact ⟨ExpiryInv.init _ _, rfl, rfl⟩
    · rintro s t ⟨hs, hsy⟩ (⟨blk, codes, pvtdata, hcm, hst⟩ | rfl)
      · have ht := hs.commitsNext hw pk.coll_ne_nil hbtl (fun k k' hk hk' => (hinj k hk).trans (hinj k' hk').symm)
          (fun k hk => hinj k hk ▸ hky) hcm hst.expires
        obtain ⟨rawKeys, u, purges, p, hpr, hto⟩ := hcm.batches
        have hb := batchInStep_of_expiresInStep (c := pk.hashed sha256) rawKeys pk.coll_ne_nil hpr hcm.named hst.expires
        rw [hcm.next] at hb
        have hpd := synced_prepared rawKeys hsy hpr hst.expires hst.supplied hst.heights
        exact ⟨ht, synced_commit hpd hs ht hw pk.coll_ne_nil hb rfl hky hto⟩
      · exact ⟨{ hs with workingset := .inl rfl }, hsy⟩
  have hvr : (s.store.db (pvtDataKey pk.toCompositeKey)).map VersionedValue.version =
      getKeyHashVersion s.store.db pk.ns pk.coll (sha256 pk.key) := by
    rw [hsy.2, CompositeKey.dataKey_hashed (c := pk.hashed sha256) pk.coll_ne_nil]
    rfl
  refine ⟨hvr, (s.store.db (pvtDataKey pk.toCompositeKey)).bind VersionedValue.value, ?_, ?_⟩
  · rw [getPrivateData, if_pos hvr.symm]
  · have hvl := hsy.1
    cases hp : s.store.db (pvtDataKey pk.toCompositeKey) with
    | none =>
      rw [hp] at hvl
      rw [Option.map_eq_none_iff.mp hvl.symm]
      rfl
    | some vv =>
      rw [hp] at hvl
      obtain ⟨vv', hvv', hva⟩ := Option.map_eq_some_iff.mp hvl.symm
      rw [hvv']
      exact hva

end

theorem exampleEmptyBlock_readsInStep (num : UInt64) :
    ReadsInStep examplePvtKey id (fun _ => []) exampleUnmarshal (exampleEmptyBlock num) [] examplePvtData where
  expires := exampleEmptyBlock_expiresInStep num _
  supplied _ hv := absurd hv not_mem_nil
  heights _ hv := absurd hv not_mem_nil

theorem examplePvtBlock_readsInStep :
    ReadsInStep examplePvtKey id (fun _ => []) exampleUnmarshal (examplePvtBlock none) [.valid] examplePvtData where
  expires := examplePvtBlock_expiresInStep
  supplied := examplePvtBlock_supplied none
  heights _ _ _ := rfl

theorem getPrivateData_of_reachable_examplePvtBlock :
    (exampleState 2).height = 2 ∧
      getPrivateData id (exampleState 2).store.db examplePvtKey.toCompositeKey = .ok (some (ascii "v")) ∧
      ((exampleState 2).store.db (pvtDataKey examplePvtKey.toCompositeKey)).map VersionedValue.version =
          getKeyHashVersion (exampleState 2).store.db examplePvtKey.ns examplePvtKey.coll (id examplePvtKey.key) ∧
        ∃ value, getPrivateData id (exampleState 2).store.db examplePvtKey.toCompositeKey = .ok value ∧
          ((exampleState 2).store.db (examplePvtKey.hashed id).dataKey).bind VersionedValue.value = value.map id := by
  have hinj : ∀ k, hashedKey id k = examplePvtKey.hashed id → k = examplePvtKey.toCompositeKey := fun _ hk => hk
  exact ⟨rfl, rfl, getPrivateData_of_reachable (show examplePolicy.getBTL _ _ = some _ from rfl) (by decide) hinj
    (exampleState_reachable exampleEmptyBlock_readsInStep examplePvtBlock_readsInStep 2)⟩

/-- In a block with a sparse filter the key hash gets the height in the fat block and the private key that in the
block. -/
theorem examplePvtBlock_unreadable :
    WritesSupplied id (fun _ => []) exampleUnmarshal (examplePvtBlock (some ⟨7, [⟨3, .valid⟩]⟩)) [.valid] examplePvtData
        examplePvtKey.toCompositeKey ∧
      (exampleCommit (exampleState 1) (examplePvtBlock (some ⟨7, [⟨3, .valid⟩]⟩)) >>= fun r =>
        .ok (r.1, (r.2.store.db (pvtDataKey examplePvtKey.toCompositeKey)).map VersionedValue.version,
          getKeyHashVersion r.2.store.db examplePvtKey.ns examplePvtKey.coll (id examplePvtKey.key),
          getPrivateData id r.2.store.db examplePvtKey.toCompositeKey)) =
        .ok ([.valid], some ⟨1, 0⟩, some ⟨7, 3⟩, .err ()) :=
  ⟨examplePvtBlock_supplied _, rfl⟩

end Drunix.Ledger.Expiry
