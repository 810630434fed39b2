import Drunix.Gossip.PvtdataProvider

namespace Drunix.Gossip

open Lib Proto Ledger.Validation Outcome List

def CarriedAt (txs : List (Option BlockTx)) (seqInBlock : UInt64) (ns coll hash : Bytes) : Prop :=
  ∃ n tx, txs[n]? = some (some tx) ∧ UInt64.ofNat n = seqInBlock ∧ ⟨ns, coll, hash⟩ ∈ tx.collHashes

def CarriedFor (txs : List (Option BlockTx)) (key : RwSetKey) (hash : Bytes) : Prop :=
  CarriedAt txs key.seqInBlock key.ns key.coll hash

def CarriedOnly (sha256 : Bytes → Bytes) (txs : List (Option BlockTx)) (blockPvtdata : BlockPvtdata) : Prop :=
  ∀ seqInBlock txPvtdata writeSet, blockPvtdata.pvtData seqInBlock = some txPvtdata →
    txPvtdata.writeSet = some writeSet →
      ∀ c ∈ writeSet.collections, CarriedAt txs seqInBlock c.ns c.coll (sha256 c.rwset)

structure Retrieval.Sound (sha256 : Bytes → Bytes) (txs : List (Option BlockTx)) (r : Retrieval) : Prop where
  pvtdata : ∀ key rws, r.pvtdata.lookup key = some rws → CarriedFor txs key (sha256 rws)
  missing : ∀ key, r.missing key = true → CarriedFor txs key (r.expectedHash key)

variable {tx : BlockTx} {n : Nat} {invalid : Bool}

section

variable {Config : Type} {retrieveCollectionConfig : Bytes → Bytes → Bytes → Option Config} {txs : List (Option BlockTx)}

def Listed (txs : List (Option BlockTx)) (info : TxPvtdataInfo Config) : Prop :=
  ∀ c ∈ info.collectionPvtdataInfo, CarriedAt txs info.seqInBlock c.ns c.coll c.expectedHash

theorem listed_of_mapM (htx : txs[n]? = some (some tx)) {infos : List (CollectionPvtdataInfo Config)}
    (h : (tx.collections.filter HashedCollection.containsWrites).mapM (collectionInfo retrieveCollectionConfig tx.channelID) =
      .ok infos) : Listed txs ⟨tx.txID, invalid, UInt64.ofNat n, infos⟩ := by
  intro info hi
  obtain ⟨c, hc, hcn⟩ := exists_of_mem_mapM h hi
  obtain ⟨config, _, hcn⟩ := bind_eq_ok.mp hcn
  cases hcn
  exact ⟨n, tx, htx, rfl, mem_map.mpr ⟨c, (mem_filter.mp hc).1, rfl⟩⟩

theorem listed_of_pvtdataInfos {l : List (Option BlockTx × TxValidationCode)}
    (hl : ∀ i e, l[i]? = some e → txs[n + i]? = some e.1) {infos : List (TxPvtdataInfo Config)}
    (h : pvtdataInfos retrieveCollectionConfig n l = .ok infos) : ∀ info ∈ infos, Listed txs info := by
  induction l generalizing n infos with
  | nil =>
    cases h
    exact fun info hin => absurd hin not_mem_nil
  | cons e l ih =>
    have hrs : ∀ i e', l[i]? = some e' → txs[n + 1 + i]? = some e'.1 := by
      intro i e' he'
      have hi := hl (i + 1) e' he'
      rwa [show n + (i + 1) = n + 1 + i by omega] at hi
    obtain ⟨tx, flag⟩ := e
    cases tx with
    | none => exact ih hrs h
    | some tx =>
      obtain ⟨colls, hc, h⟩ := bind_eq_ok.mp h
      obtain ⟨rest, hro, h⟩ := bind_eq_ok.mp h
      cases h
      intro info hin
      rcases mem_cons.mp hin with rfl | hin
      · exact listed_of_mapM (hl 0 (some tx, flag) rfl) hc
      · exact ih hrs hro info hin

theorem listed_of_getTxPvtdataInfoFromBlock {txsFilter : Option (List TxValidationCode)}
    {infos : List (TxPvtdataInfo Config)} (h : getTxPvtdataInfoFromBlock retrieveCollectionConfig txs txsFilter = .ok infos) :
    ∀ info ∈ infos, Listed txs info := by
  obtain ⟨flags, _, h⟩ := bind_eq_ok.mp h
  obtain ⟨_, _, h⟩ := bind_eq_ok.mp h
  apply listed_of_pvtdataInfos _ h
  intro i e he
  rw [Nat.zero_add]
  exact (getElem?_zip_eq_some.mp he).1

end

variable {m : AMap RwSetKey Bool} {key' : RwSetKey} {prefetched : List (UInt64 × TxPvtData)} {r' : Retrieval}
  {fetchedData : FetchedData}

section

variable {sha256 : Bytes → Bytes} {txs : List (Option BlockTx)} {r : Retrieval}

theorem Retrieval.missing_erase {key : RwSetKey} (h : ((m.erase key).lookup key').isSome = true) :
    key' ≠ key ∧ (m.lookup key').isSome = true := by
  by_cases hk : key' = key
  · rw [hk, AList.lookup_erase] at h
    cases h
  · rw [AList.lookup_erase_ne hk] at h
    exact ⟨hk, h⟩

section

variable (hr : r.Sound sha256 txs)
include hr

theorem Retrieval.Sound.take {key : RwSetKey} {rws : Bytes} (h : CarriedFor txs key (sha256 rws)) :
    (r.take key rws).Sound sha256 txs where
  pvtdata := by
    intro key' rws' hlk
    rw [Retrieval.take, AMap.lookup_insert_eq] at hlk
    split_ifs at hlk with hk
    · rw [hk, ← Option.some.inj hlk]
      exact h
    · exact hr.pvtdata key' rws' hlk
  missing := by
    intro key' hk'
    exact hr.missing key' (missing_erase hk').2

theorem Retrieval.Sound.takeOrReconcile (e : RwSetKey × Bytes) : (r.takeOrReconcile sha256 e).Sound sha256 txs := by
  rw [Retrieval.takeOrReconcile]
  cases hms : r.remainingEligibleMissingKeys.lookup e.1 with
  | none => exact hr
  | some invalid =>
    have hc := hr.missing e.1 (by rw [Retrieval.missing, hms]; rfl)
    split_ifs with hh
    · exact hr.take (hh ▸ hc)
    · exact ⟨hr.pvtdata, fun key hk => hr.missing key (missing_erase hk).2⟩

theorem Retrieval.Sound.takeOrSkip (e : RwSetKey × Bytes) : (r.takeOrSkip sha256 e).Sound sha256 txs := by
  rw [Retrieval.takeOrSkip]
  split
  next h =>
    rw [Bool.and_eq_true, decide_eq_true_iff] at h
    exact hr.take (h.2 ▸ hr.missing e.1 h.1)
  next => exact hr

end

theorem populateFromCache_invariant (P : Retrieval → Prop) (hP : ∀ r e, P r → P (r.takeOrReconcile sha256 e))
    {Config : Type} {infos : List (TxPvtdataInfo Config)} (h : populateFromCache sha256 infos prefetched r = .ok r')
    (hr : P r) : P r' := by
  refine foldlM_invariant P ?_ hr h
  intro e _ s s' hs hst
  dsimp only at hst
  split at hst
  · cases hst
    exact hs
  · obtain ⟨writeSet, _, hst⟩ := bind_eq_ok.mp hst
    cases hst
    exact List.foldlRecOn _ _ hs fun r hr e _ => hP r e hr

theorem Retrieval.Sound.scanKey (hr : r.Sound sha256 txs) (k : RwSetKey) (results : List ScanResult) :
    (scanKey sha256 k r results).1.Sound sha256 txs := by
  induction results generalizing r with
  | nil => exact hr
  | cons result results ih =>
    cases result with
    | failed => exact hr
    | nothing => exact ih hr
    | pvtRwset writeSet => exact ih (List.foldlRecOn _ _ hr fun r hr e _ => hr.takeOrSkip e)

theorem Retrieval.Sound.populateFromTransientStore {scan : Bytes → Option (List ScanResult)} {order : List RwSetKey}
    (hr : r.Sound sha256 txs) : (populateFromTransientStore sha256 scan order r).Sound sha256 txs := by
  induction order generalizing r with
  | nil => exact hr
  | cons k order ih =>
    rw [Gossip.populateFromTransientStore]
    by_cases hk : r.missing k = true
    · rw [if_pos hk]
      cases hsc : scan k.txID with
      | none => exact hr
      | some results =>
        have hs := hr.scanKey k results
        dsimp only
        split
        next r' heq =>
          rw [heq] at hs
          exact ih hs
        next r' heq =>
          rw [heq] at hs
          exact hs
    · rw [if_neg hk]
      exact ih hr

theorem missing_foldl_erase {key : RwSetKey} (l : List RwSetKey)
    (h : ((l.foldl (fun m k => m.erase k) m).lookup key).isSome = true) : (m.lookup key).isSome = true := by
  induction l generalizing m with
  | nil => exact h
  | cons k l ih => exact (Retrieval.missing_erase (ih h)).2

theorem Retrieval.Sound.processFetched (hr : r.Sound sha256 txs) :
    (processFetched sha256 fetchedData r).Sound sha256 txs := by
  have hs : ((fetchedData.availableElements.flatMap fun element => element.2.map fun rws => (element.1, rws)).foldl
      (Retrieval.takeOrReconcile sha256) r).Sound sha256 txs :=
    List.foldlRecOn _ _ hr fun r hr e _ => hr.takeOrReconcile e
  exact ⟨hs.pvtdata, fun key hk => hs.missing key (missing_foldl_erase _ hk)⟩

theorem pullRounds_invariant (P : Retrieval → Prop) (hP : ∀ r fetchedData, P r → P (processFetched sha256 fetchedData r))
    (skip : Bool) (replies : List (Option FetchedData)) (hr : P r) : P (pullRounds sha256 skip replies r) := by
  induction replies generalizing r with
  | nil => exact hr
  | cons reply replies ih =>
    have hs : P (populateFromRemotePeers sha256 skip reply r).1 := by
      unfold populateFromRemotePeers
      dsimp only
      split
      · exact hr
      · cases reply with
        | none => exact hr
        | some fetchedData => exact hP r fetchedData hr
    rw [Gossip.pullRounds]
    split
    · exact hr
    · split
      next r' heq =>
        rw [heq] at hs
        exact ih hs
      next r' heq =>
        rw [heq] at hs
        exact hs

end

variable {seqInBlock : UInt64}

section

variable {Config : Type} {sha256 : Bytes → Bytes} {newSimpleCollection : Config → Option Policy} {mspID : Bytes}
  {storePvtdataOfInvalidTx : Bool} {txs : List (Option BlockTx)}

theorem Retrieval.Sound.computeKey {txID : Bytes} {r : Retrieval} {colInfo : CollectionPvtdataInfo Config}
    (hr : r.Sound sha256 txs) (hc : CarriedAt txs seqInBlock colInfo.ns colInfo.coll colInfo.expectedHash)
    (h : computeKey newSimpleCollection mspID txID seqInBlock invalid r colInfo = .ok r') : r'.Sound sha256 txs := by
  obtain ⟨policy, _, h⟩ := bind_eq_ok.mp h
  dsimp only at h
  split at h
  · cases h
    exact ⟨hr.pvtdata, hr.missing⟩
  · cases h
    refine ⟨hr.pvtdata, ?_⟩
    intro key hky
    rw [Retrieval.missing, AMap.lookup_insert_eq] at hky
    rw [Retrieval.expectedHash, AMap.lookup_insert_eq]
    split_ifs at hky ⊢ with hk
    · rw [hk]
      exact hc
    · exact hr.missing key hky

theorem sound_of_computeEligibility {infos : List (TxPvtdataInfo Config)} {r : Retrieval}
    (hi : ∀ info ∈ infos, Listed txs info)
    (h : computeEligibility newSimpleCollection mspID storePvtdataOfInvalidTx infos = .ok r) : r.Sound sha256 txs := by
  have he : ({} : Retrieval).Sound sha256 txs := by
    refine ⟨?_, ?_⟩
    · intro key rws hlk
      cases hlk
    · intro key hk
      cases hk
  refine foldlM_invariant (Retrieval.Sound sha256 txs) ?_ he h
  intro info hin s s' hs hst
  split at hst
  · cases hst
    exact hs
  · refine foldlM_invariant (Retrieval.Sound sha256 txs) ?_ hs hst
    intro c hc t t' ht hk
    exact ht.computeKey (hi info hin c hc) hk

end

variable {c : CollData} {txs : List (Option BlockTx)}

section

variable {sha256 : Bytes → Bytes} {key : RwSetKey} {rws : Bytes} {r : Retrieval} {visit : RwSetKey → List CollData}

def Retrieval.Settled (r : Retrieval) (key : RwSetKey) (rws : Bytes) : Prop :=
  r.pvtdata.lookup key = some rws ∧ r.missing key = false

theorem Retrieval.settled_take (r : Retrieval) (key : RwSetKey) (rws : Bytes) : (r.take key rws).Settled key rws := by
  refine ⟨AList.lookup_insert _, ?_⟩
  rw [Retrieval.missing, Retrieval.take, AList.lookup_erase]
  rfl

theorem missing_erase_eq_false (h : (m.lookup key).isSome = false) (key' : RwSetKey) :
    ((m.erase key').lookup key).isSome = false := by
  rw [Bool.eq_false_iff] at h ⊢
  exact fun hm => h (Retrieval.missing_erase hm).2

theorem Retrieval.Settled.take (h : r.Settled key rws) (hne : key ≠ key') (rws' : Bytes) :
    (r.take key' rws').Settled key rws := by
  refine ⟨?_, missing_erase_eq_false h.2 key'⟩
  rw [Retrieval.take, AList.lookup_insert_ne hne]
  exact h.1

/-- The first entry that the goroutines come across for a missing key is taken for it. -/
theorem settled_populateFromKVTransientStore
    (hc : ((visit key).find? fun c => c.ns = key.ns ∧ c.coll = key.coll) = some c) (hky : r.missing key = true) :
    (populateFromKVTransientStore visit r).Settled key c.rwset := by
  have hf : ∀ r : Retrieval, r.takeVisited visit key = r.take key c.rwset := by
    intro r
    rw [Retrieval.takeVisited, hc]
  have hst : ∀ (r : Retrieval) (k : RwSetKey), r.Settled key c.rwset →
      (r.takeVisited visit k).Settled key c.rwset := by
    intro r k hr
    by_cases hk : key = k
    · subst hk
      rw [hf]
      exact r.settled_take key c.rwset
    · rw [Retrieval.takeVisited]
      cases (visit k).find? fun c => c.ns = k.ns ∧ c.coll = k.coll with
      | none => exact hr
      | some c' => exact hr.take hk c'.rwset
  obtain ⟨pre, post, hm⟩ := append_of_mem (show key ∈ r.remainingEligibleMissingKeys.keys from AList.lookup_isSome.mp hky)
  rw [populateFromKVTransientStore, hm, foldl_append, foldl_cons, hf]
  exact List.foldlRecOn (motive := fun r => Retrieval.Settled r key c.rwset) _ _ (Retrieval.settled_take _ key c.rwset)
    fun r hr k _ => hst r k hr

theorem Retrieval.Sound.populateFromKVTransientStore (hr : r.Sound sha256 txs)
    (hvs : ∀ key, r.missing key = true → ∀ c ∈ visit key, c.ns = key.ns → c.coll = key.coll →
      CarriedFor txs key (sha256 c.rwset)) : (populateFromKVTransientStore visit r).Sound sha256 txs := by
  refine List.foldlRecOn _ _ hr ?_
  intro s hs k hk
  rw [Retrieval.takeVisited]
  cases hf : (visit k).find? fun c => c.ns = k.ns ∧ c.coll = k.coll with
  | none => exact hs
  | some c =>
    have hmt : c.ns = k.ns ∧ c.coll = k.coll := by simpa using find?_some hf
    apply hs.take
    exact hvs k (AList.lookup_isSome.mpr hk) c (mem_of_find?_eq_some hf) hmt.1 hmt.2

end

theorem getD_foldl_append {α V : Type} (l : List (α × V)) (v : Option (List V)) :
    (l.foldl (fun v e => some (v.getD [] ++ [e.2])) v).getD [] = v.getD [] ++ l.map Prod.snd := by
  induction l generalizing v with
  | nil => simp
  | cons e l ih => simp [ih]

theorem getD_lookup_namespaces (s : List (RwSetKey × Bytes)) (ns : Bytes) :
    ((namespaces s).lookup ns).getD [] = (s.filter fun e => e.1.ns = ns).map fun e => ⟨e.1.coll, e.2⟩ := by
  have hlk := AMap.lookup_foldl_modify (fun colls (coll : CollectionPvtReadWriteSet) => colls.getD [] ++ [coll])
    (s.map fun e => (e.1.ns, ⟨e.1.coll, e.2⟩)) ∅ ns
  rw [foldl_map] at hlk
  rw [namespaces, hlk, getD_foldl_append, filter_map, map_map]
  rfl

theorem mem_collections_toRWSet {s : List (RwSetKey × Bytes)} :
    c ∈ (toRWSet s).collections ↔ ∃ e ∈ s, c = ⟨e.1.ns, e.1.coll, e.2⟩ := by
  rw [TxPvtReadWriteSet.collections, mem_flatMap]
  constructor
  · rintro ⟨nsSet, hns, hc⟩
    obtain ⟨entry, hen, rfl⟩ := mem_map.mp hns
    obtain ⟨coll, hco, rfl⟩ := mem_map.mp hc
    have hcl := getD_lookup_namespaces s entry.1
    rw [AList.mem_lookup_iff.mpr hen, Option.getD_some] at hcl
    rw [hcl] at hco
    obtain ⟨e, he, rfl⟩ := mem_map.mp hco
    obtain ⟨hs, hk⟩ := mem_filter.mp he
    exact ⟨e, hs, by rw [of_decide_eq_true hk]⟩
  · rintro ⟨e, he, rfl⟩
    have hm : ⟨e.1.coll, e.2⟩ ∈ ((namespaces s).lookup e.1.ns).getD [] := by
      rw [getD_lookup_namespaces]
      exact mem_map.mpr ⟨e, mem_filter.mpr ⟨he, decide_eq_true rfl⟩, rfl⟩
    cases hl : (namespaces s).lookup e.1.ns with
    | none =>
      rw [hl] at hm
      exact absurd hm not_mem_nil
    | some colls =>
      rw [hl] at hm
      exact ⟨⟨e.1.ns, colls⟩, mem_map.mpr ⟨⟨e.1.ns, colls⟩, AList.mem_lookup_iff.mp hl, rfl⟩,
        mem_map.mpr ⟨_, hm, rfl⟩⟩

theorem mem_bySeqInBlock {pvtdata : AMap RwSetKey Bytes} {e : RwSetKey × Bytes} :
    e ∈ bySeqInBlock pvtdata seqInBlock ↔ pvtdata.lookup e.1 = some e.2 ∧ e.1.seqInBlock = seqInBlock := by
  rw [bySeqInBlock, mem_map]
  constructor
  · rintro ⟨entry, he, rfl⟩
    obtain ⟨hm, hsq⟩ := mem_filter.mp he
    exact ⟨AList.mem_lookup_iff.mpr hm, of_decide_eq_true hsq⟩
  · rintro ⟨hlk, hsq⟩
    exact ⟨⟨e.1, e.2⟩, mem_filter.mpr ⟨AList.mem_lookup_iff.mp hlk, decide_eq_true hsq⟩, rfl⟩

variable {sha256 : Bytes → Bytes}

theorem carriedOnly_prepareBlockPvtdata_iff {r : Retrieval} :
    CarriedOnly sha256 txs (prepareBlockPvtdata r) ↔
      ∀ key rws, r.pvtdata.lookup key = some rws → CarriedFor txs key (sha256 rws) := by
  constructor
  · intro h key rws hlk
    have hm : (key, rws) ∈ bySeqInBlock r.pvtdata key.seqInBlock := mem_bySeqInBlock.mpr ⟨hlk, rfl⟩
    apply h key.seqInBlock _ _ (if_neg (ne_nil_of_mem hm)) rfl ⟨key.ns, key.coll, rws⟩
    exact mem_collections_toRWSet.mpr ⟨_, hm, rfl⟩
  · intro h seqInBlock txPvtdata writeSet hp hws c hc
    rw [prepareBlockPvtdata] at hp
    dsimp only at hp
    split at hp
    · cases hp
    · cases hp
      cases hws
      obtain ⟨e, he, rfl⟩ := mem_collections_toRWSet.mp hc
      obtain ⟨hlk, rfl⟩ := mem_bySeqInBlock.mp he
      exact h e.1 e.2 hlk

theorem missing_of_populateFromCache {Config : Type} {infos : List (TxPvtdataInfo Config)} {r : Retrieval}
    (h : populateFromCache sha256 infos prefetched r = .ok r') {key : RwSetKey} (hk : r'.missing key = true) :
    r.missing key = true := by
  refine populateFromCache_invariant (fun s => s.missing key = true → r.missing key = true) ?_ h id hk
  intro s e hs hm
  rw [Retrieval.takeOrReconcile] at hm
  split at hm
  · exact hs hm
  · split at hm
    · exact hs (Retrieval.missing_erase hm).2
    · exact hs (Retrieval.missing_erase hm).2

theorem entries_ne_nil_of_missing {r : Retrieval} {key : RwSetKey} (h : r.missing key = true) :
    r.remainingEligibleMissingKeys.entries ≠ [] := by
  intro hnil
  rw [Retrieval.missing, AList.lookup, hnil] at h
  cases h

section

variable {Config : Type} (sha256 : Bytes → Bytes) (newSimpleCollection : Config → Option Policy) (mspID : Bytes)
  (storePvtdataOfInvalidTx skipPullingInvalidTransactions : Bool) (transientStore : TransientStore)
  (retrieveCollectionConfig : Bytes → Bytes → Bytes → Option Config) (txs : List (Option BlockTx))
  (txsFilter : Option (List TxValidationCode)) (prefetchedPvtdata : List (UInt64 × TxPvtData))

/-- The key-value store, if it is used, has only write sets with a hash of the block for the keys that are
still missing after the cache. -/
def KvStoreClean : Prop :=
  ∀ content, transientStore = .kvStore (some content) → ∀ infos r₀ r,
    getTxPvtdataInfoFromBlock retrieveCollectionConfig txs txsFilter = .ok infos →
    computeEligibility newSimpleCollection mspID storePvtdataOfInvalidTx infos = .ok r₀ →
    populateFromCache sha256 infos prefetchedPvtdata r₀ = .ok r →
      ∀ key, r.missing key = true → ∀ c ∈ content key.txID, c.ns = key.ns → c.coll = key.coll →
        CarriedFor txs key (sha256 c.rwset)

variable {sha256 newSimpleCollection mspID storePvtdataOfInvalidTx skipPullingInvalidTransactions transientStore
  retrieveCollectionConfig txs txsFilter prefetchedPvtdata} {blockPvtdata : BlockPvtdata}

theorem carriedOnly_of_kvStoreClean
    (hcl : KvStoreClean sha256 newSimpleCollection mspID storePvtdataOfInvalidTx transientStore retrieveCollectionConfig
      txs txsFilter prefetchedPvtdata) {env : Environment} (he : env.Serves transientStore)
    (h : retrieveBlockPvtdata sha256 newSimpleCollection mspID storePvtdataOfInvalidTx skipPullingInvalidTransactions
      transientStore retrieveCollectionConfig txs txsFilter prefetchedPvtdata env = .ok blockPvtdata) :
    CarriedOnly sha256 txs blockPvtdata := by
  obtain ⟨infos, hi, h⟩ := bind_eq_ok.mp h
  obtain ⟨r₀, hr₀, h⟩ := bind_eq_ok.mp h
  have hs₀ : r₀.Sound sha256 txs := sound_of_computeEligibility (listed_of_getTxPvtdataInfoFromBlock hi) hr₀
  split at h
  · cases h
    exact carriedOnly_prepareBlockPvtdata_iff.mpr hs₀.pvtdata
  obtain ⟨r, hr, h⟩ := bind_eq_ok.mp h
  have hs := populateFromCache_invariant (Retrieval.Sound sha256 txs) (fun r e hr => hr.takeOrReconcile e) hr hs₀
  have hst : (populateFromStore sha256 transientStore env r).Sound sha256 txs := by
    cases transientStore with
    | levelDB scan => exact hs.populateFromTransientStore
    | kvStore content =>
      cases content with
      | none => exact hs
      | some content =>
        apply hs.populateFromKVTransientStore
        intro key hk c hc
        exact hcl content rfl infos r₀ r hi hr₀ hr key hk c ((he key).mem_iff.mp hc)
  split at h
  · cases h
    exact carriedOnly_prepareBlockPvtdata_iff.mpr hs.pvtdata
  dsimp only at h
  split at h
  · cases h
    exact carriedOnly_prepareBlockPvtdata_iff.mpr hst.pvtdata
  · cases h
    have hp := pullRounds_invariant (Retrieval.Sound sha256 txs) (fun r fetchedData hr => hr.processFetched)
      skipPullingInvalidTransactions env.replies hst
    exact carriedOnly_prepareBlockPvtdata_iff.mpr hp.pvtdata

theorem validatePvtdata_of_carriedOnly (h : CarriedOnly sha256 txs blockPvtdata) (hln : txs.length ≤ UInt64.size)
    (htx : txs[n]? = some (some tx))
    (hu : ∀ c ∈ tx.collHashes, ∀ c' ∈ tx.collHashes, c.ns = c'.ns → c.coll = c'.coll → c.hash = c'.hash)
    {txPvtdata : TxPvtData} (hp : blockPvtdata.pvtData (UInt64.ofNat n) = some txPvtdata) :
    validatePvtdata sha256 tx.collHashes txPvtdata = .ok () := by
  rw [validatePvtdata]
  cases hws : txPvtdata.writeSet with
  | none => rfl
  | some writeSet =>
    apply forM_eq_ok.mpr
    intro c hc
    rw [require_eq_ok, decide_eq_true_iff]
    obtain ⟨n', tx', htx', hn, hm⟩ := h _ _ _ hp hws c hc
    have hlt : n < UInt64.size := (List.getElem?_eq_some_iff.mp htx).1.trans_le hln
    have hlt' : n' < UInt64.size := (List.getElem?_eq_some_iff.mp htx').1.trans_le hln
    have hnn : n' = n := by
      have htn := congrArg UInt64.toNat hn
      rwa [UInt64.toNat_ofNat_of_lt' hlt', UInt64.toNat_ofNat_of_lt' hlt] at htn
    rw [hnn, htx] at htx'
    cases htx'
    rw [retrieveHash]
    cases hf : tx.collHashes.find? fun c' => c'.ns = c.ns ∧ c'.coll = c.coll with
    | none =>
      have hno := find?_eq_none.mp hf _ hm
      simp at hno
    | some c' =>
      have hmt : c'.ns = c.ns ∧ c'.coll = c.coll := by simpa using find?_some hf
      exact (hu c' (mem_of_find?_eq_some hf) _ hm hmt.1 hmt.2).symm

variable (sha256 newSimpleCollection mspID storePvtdataOfInvalidTx skipPullingInvalidTransactions transientStore
  retrieveCollectionConfig txs txsFilter prefetchedPvtdata)

theorem retrieveBlockPvtdata_carriedOnly_iff :
    (∀ env, env.Serves transientStore → ∀ blockPvtdata,
      retrieveBlockPvtdata sha256 newSimpleCollection mspID storePvtdataOfInvalidTx skipPullingInvalidTransactions
        transientStore retrieveCollectionConfig txs txsFilter prefetchedPvtdata env = .ok blockPvtdata →
      CarriedOnly sha256 txs blockPvtdata) ↔
        KvStoreClean sha256 newSimpleCollection mspID storePvtdataOfInvalidTx transientStore retrieveCollectionConfig txs
          txsFilter prefetchedPvtdata := by
  constructor
  · intro h content hcn infos r₀ r hi hr₀ hr key hky c hc hns hco
    subst hcn
    let env : Environment :=
      { order := []
        visit := fun k => if k = key then c :: (content key.txID).erase c else content k.txID
        replies := [] }
    have he : env.Serves (.kvStore (some content)) := by
      intro k
      dsimp only [env]
      split
      next hk =>
        rw [hk]
        exact (perm_cons_erase hc).symm
      next => exact .refl _
    have hf : ((env.visit key).find? fun c => c.ns = key.ns ∧ c.coll = key.coll) = some c := by
      simp [env, hns, hco]
    have hst := settled_populateFromKVTransientStore hf hky
    have hrt : retrieveBlockPvtdata sha256 newSimpleCollection mspID storePvtdataOfInvalidTx
        skipPullingInvalidTransactions (.kvStore (some content)) retrieveCollectionConfig txs txsFilter prefetchedPvtdata env =
          .ok (prepareBlockPvtdata (populateFromKVTransientStore env.visit r)) := by
      rw [retrieveBlockPvtdata, hi, ok_bind, retrievePvtdata, hr₀, ok_bind,
        if_neg (entries_ne_nil_of_missing (missing_of_populateFromCache hr hky)), hr, ok_bind,
        if_neg (entries_ne_nil_of_missing hky)]
      dsimp only
      split <;> rfl
    exact carriedOnly_prepareBlockPvtdata_iff.mp (h env he _ hrt) key c.rwset hst.1
  · intro hcl env he blockPvtdata h
    exact carriedOnly_of_kvStoreClean hcl he h

/-- Only the key-value store can bring in private data with a wrong hash, on the vanilla and on the lite
path; without such data the commit finds no mismatch. -/
theorem carriedOnly_iff_kvStoreClean :
    ((∀ env, env.Serves transientStore → ∀ blockPvtdata,
      retrieveBlockPvtdata sha256 newSimpleCollection mspID storePvtdataOfInvalidTx skipPullingInvalidTransactions
        transientStore retrieveCollectionConfig txs txsFilter prefetchedPvtdata env = .ok blockPvtdata →
      CarriedOnly sha256 txs blockPvtdata) ↔
        KvStoreClean sha256 newSimpleCollection mspID storePvtdataOfInvalidTx transientStore retrieveCollectionConfig txs
          txsFilter prefetchedPvtdata) ∧
      ((∀ env, env.Serves transientStore → ∀ blockPvtdata,
        retrieveLtxBlockPvtdata sha256 newSimpleCollection mspID storePvtdataOfInvalidTx skipPullingInvalidTransactions
          transientStore retrieveCollectionConfig txs txsFilter env = .ok blockPvtdata →
        CarriedOnly sha256 txs blockPvtdata) ↔
          KvStoreClean sha256 newSimpleCollection mspID storePvtdataOfInvalidTx transientStore retrieveCollectionConfig txs
            txsFilter []) ∧
      ∀ blockPvtdata, CarriedOnly sha256 txs blockPvtdata → txs.length ≤ UInt64.size →
        ∀ n tx, txs[n]? = some (some tx) →
          (∀ c ∈ tx.collHashes, ∀ c' ∈ tx.collHashes, c.ns = c'.ns → c.coll = c'.coll → c.hash = c'.hash) →
          ∀ txPvtdata, blockPvtdata.pvtData (UInt64.ofNat n) = some txPvtdata →
            validatePvtdata sha256 tx.collHashes txPvtdata = .ok () := by
  refine ⟨retrieveBlockPvtdata_carriedOnly_iff .., retrieveBlockPvtdata_carriedOnly_iff .., ?_⟩
  intro blockPvtdata h hln n tx htx hu txPvtdata hp
  exact validatePvtdata_of_carriedOnly h hln htx hu hp

end

def exampleTx : BlockTx where
  channelID := ascii "ch"
  txID := ascii "tx"
  collections := [⟨ascii "cc", ascii "c", ascii "good", true⟩]

def badStore : TransientStore :=
  .kvStore (some fun _ => [⟨ascii "cc", ascii "c", ascii "bad"⟩])

def exampleEnvironment : Environment where
  order := []
  visit _ := [⟨ascii "cc", ascii "c", ascii "bad"⟩]
  replies := []

theorem badStore_fails_commit :
    exampleEnvironment.Serves badStore ∧
      ∃ blockPvtdata txPvtdata, retrieveBlockPvtdata id (fun _ : Unit => some ⟨[ascii "org"], false⟩) (ascii "org")
          false false badStore (fun _ _ _ => some ()) [some exampleTx] (some [.valid]) [] exampleEnvironment =
            .ok blockPvtdata ∧
        blockPvtdata.pvtData 0 = some txPvtdata ∧
        ¬ CarriedOnly id [some exampleTx] blockPvtdata ∧
        validatePvtdata id exampleTx.collHashes txPvtdata = .err () := by
  refine ⟨fun k => List.Perm.refl _, _, _, rfl, rfl, ?_, by decide⟩
  intro h
  obtain ⟨n, tx, htx, _, hm⟩ := h 0 _ _ rfl rfl ⟨ascii "cc", ascii "c", ascii "bad"⟩ (by decide)
  cases n with
  | zero =>
    cases htx
    revert hm
    decide
  | succ n => cases htx

end Drunix.Gossip
