import Drunix.Ledger.Validation.KeyEffects
import Drunix.Ledger.Validation.KeyMerge

namespace Drunix.Ledger.Validation

open Lib Proto Vanilla Outcome List

def nsReads (nsRWSet : NsRwSet) : List (StateKey × Option Version) :=
  nsRWSet.kvRwSet.reads.map (fun r => (.pub nsRWSet.nameSpace r.key, r.version)) ++
    nsRWSet.collHashedRwSets.flatMap fun coll =>
      coll.hashedRwSet.hashedReads.map fun r => (.hashed nsRWSet.nameSpace coll.collectionName r.keyHash, r.version)

def pointReads (rwset : TxRwSet) : List (StateKey × Option Version) :=
  rwset.nsRwSets.flatMap nsReads

def ReadsMatch (s : State) (rwset : TxRwSet) : Prop :=
  ∀ r ∈ pointReads rwset, (s r.1).map VersionedValue.version = r.2

/-- The entries of the state that a range query visits; a query whose iterator was not exhausted ends
with the last key it has seen. -/
def IsRangeResult (s : State) (ns : Bytes) (rqi : RangeQueryInfo) (results : List (Bytes × VersionedValue)) : Prop :=
  ∃ inRange, Enumerates inRange (fun key => s (.pub ns key)) (InRange rqi.startKey rqi.endKey) ∧
    results = inRange ++
      if rqi.itrExhausted then [] else ((s (.pub ns rqi.endKey)).map fun vv => (rqi.endKey, vv)).toList

def RangeQueriesMatch (hashFunc : Bytes → Bytes) (serializeKVReads : List KVRead → Bytes) (s : State)
    (rwset : TxRwSet) : Prop :=
  ∀ nsRWSet ∈ rwset.nsRwSets, ∀ rqi ∈ nsRWSet.kvRwSet.rangeQueriesInfo, ∃ results,
    IsRangeResult s nsRWSet.nameSpace rqi results ∧
      Records hashFunc serializeKVReads rqi.readsInfo (results.map fun e => (e.1, e.2.version))

variable {code : TxValidationCode} {tx : Transaction} {nsRWSet : NsRwSet} {k : StateKey}

section

variable (sha256 : Bytes → Bytes) (serialize : List KVMetadataEntry → Bytes) (blk : Block)

/-- The last write of each key of the write set, applied to a state. -/
def State.applyWriteSet (s : State) (rwset : TxRwSet) (txHeight : Version) : State :=
  fun k => k.writeKey.elim (s k) fun c => merged (opsFor (txOps sha256 serialize rwset) c) txHeight (s k)

def State.commitTx (s : State) (tx : Transaction × TxValidationCode) : State :=
  match tx.2, blk.committingTxHeight tx.1.indexInBlock with
  | .valid, .ok txHeight => s.applyWriteSet sha256 serialize tx.1.rwset txHeight
  | _, _ => s

def State.commitTxs (s : State) (txs : List (Transaction × TxValidationCode)) : State :=
  txs.foldl (State.commitTx sha256 serialize blk) s

def Touched (txs : List (Transaction × TxValidationCode)) (k : StateKey) : Prop :=
  ∃ tx ∈ txs, tx.2 = .valid ∧ ∃ c, k.writeKey = some c ∧ opsFor (txOps sha256 serialize tx.1.rwset) c ≠ []

end

section

variable (hashFunc : Bytes → Bytes) (serializeKVReads : List KVRead → Bytes) (store : StateStore)
  (sha256 : Bytes → Bytes) (serialize : List KVMetadataEntry → Bytes) (blk : Block)

/-- The validation of the block is that of its transactions executed one after the other. -/
def Serializable : Prop :=
  ∃ codes u tracker,
    validateAndPrepareBatch hashFunc serializeKVReads store sha256 serialize blk true = .ok (codes, u, tracker) ∧
    (∀ i tx, blk.txs[i]? = some tx → codes[i]? = some .valid →
      ReadsMatch (store.state.commitTxs sha256 serialize blk ((blk.txs.zip codes).take i)) tx.rwset) ∧
    (∀ i tx, blk.txs[i]? = some tx → tx.validationCode = .valid →
      ReadsMatch (store.state.commitTxs sha256 serialize blk ((blk.txs.zip codes).take i)) tx.rwset →
      (∀ r ∈ pointReads tx.rwset, ¬ Touched sha256 serialize ((blk.txs.zip codes).take i) r.1) →
      RangeQueriesMatch hashFunc serializeKVReads
        (store.state.commitTxs sha256 serialize blk ((blk.txs.zip codes).take i)) tx.rwset →
      codes[i]? = some .valid) ∧
    store.state.update u = store.state.commitTxs sha256 serialize blk (blk.txs.zip codes)

/-- What a transaction needs to be processed on top of the updates `u` of its predecessors: its reads
can be checked, and if it is valid it has a height and its writes fit the entries that are current. -/
def Processable (u : PublicAndHashUpdates) (tx : Transaction) : Prop :=
  ∃ code, mvccCode hashFunc serializeKVReads store true u tx = .ok code ∧
    (code = .valid → (∃ txHeight, blk.committingTxHeight tx.indexInBlock = .ok txHeight) ∧
      ∀ c, opsFor (txOps sha256 serialize tx.rwset) c ≠ [] →
        Fits (opsFor (txOps sha256 serialize tx.rwset) c) (u.get c) (latest u store.db c))

end

section

variable {store : StateStore} {u : PublicAndHashUpdates} {ns : Bytes} {reads : List (StateKey × Option Version)}

theorem update_of_entry_eq_none (h : entry u k = none) : store.state.update u k = store.state k := by
  rw [State.update, h]
  rfl

theorem validateKVRead_eq_true {r : KVRead} :
    validateKVRead store.db u ns r = true ↔
      entry u (.pub ns r.key) = none ∧ (store.state (.pub ns r.key)).map VersionedValue.version = r.version := by
  rw [validateKVRead]
  cases h : u.publicUpdates.lookup (ns, r.key) with
  | none =>
    rw [decide_eq_true_iff]
    exact ⟨fun hvr => ⟨h, hvr⟩, And.right⟩
  | some vv => simp [entry, h]

theorem validateKVReadHash_eq_true {coll : Bytes} {r : KVReadHash} :
    validateKVReadHash store.db u ns coll r = true ↔
      entry u (.hashed ns coll r.keyHash) = none ∧
        (store.state (.hashed ns coll r.keyHash)).map VersionedValue.version = r.version := by
  rw [validateKVReadHash]
  cases h : u.hashUpdates.lookup ⟨ns, coll, r.keyHash⟩ with
  | none =>
    rw [decide_eq_true_iff]
    exact ⟨fun hvr => ⟨h, hvr⟩, And.right⟩
  | some vv => simp [entry, h]

def ReadsPass (store : StateStore) (u : PublicAndHashUpdates) (reads : List (StateKey × Option Version)) : Prop :=
  ∀ r ∈ reads, entry u r.1 = none ∧ (store.state r.1).map VersionedValue.version = r.2

theorem readsPass_nsReads :
    ReadsPass store u (nsReads nsRWSet) ↔
      nsRWSet.kvRwSet.reads.all (validateKVRead store.db u nsRWSet.nameSpace) = true ∧
        validateNsHashedReadSets store.db u nsRWSet.nameSpace nsRWSet.collHashedRwSets = true := by
  simp only [ReadsPass, nsReads, forall_mem_append, forall_mem_flatMap, forall_mem_map, validateNsHashedReadSets,
    all_eq_true, validateKVRead_eq_true, validateKVReadHash_eq_true]

end

section

variable (store : StateStore) (u : PublicAndHashUpdates) (ns : Bytes) {rqi : RangeQueryInfo}

theorem mem_nsUpdates (key : Bytes) (vv : VersionedValue) :
    (key, vv) ∈ nsUpdates u ns ↔ u.publicUpdates.lookup (ns, key) = some vv := by
  rw [nsUpdates, mem_filterMap, ← Option.mem_def, AList.mem_lookup_iff]
  constructor
  · rintro ⟨⟨⟨ns', key'⟩, vv'⟩, he, hm⟩
    by_cases hns : ns' = ns
    · rw [if_pos hns] at hm
      cases hm
      cases hns
      exact he
    · rw [if_neg hns] at hm
      cases hm
  · intro he
    exact ⟨_, he, if_pos rfl⟩

theorem nodup_keys_nsUpdates : ((nsUpdates u ns).map Prod.fst).Nodup := by
  rw [nsUpdates, Nodup, pairwise_map, pairwise_filterMap]
  refine (pairwise_map.mp u.publicUpdates.nodupKeys).imp ?_
  intro e e' hne x hx y hy hxy
  split_ifs at hx hy with hns hns'
  cases hx
  cases hy
  exact hne (Prod.ext (hns.trans hns'.symm) hxy)

theorem getRangeScan_enumerates (startKey endKey : Bytes) :
    Enumerates (getRangeScan u ns startKey endKey) (fun key => u.publicUpdates.lookup (ns, key))
      (InRange startKey endKey) where
  sorted := (keySorted_sortByKey (nodup_keys_nsUpdates u ns)).filter _
  mem_iff := by
    intro key vv
    rw [getRangeScan, mem_filter, mem_sortByKey, mem_nsUpdates, decide_eq_true_iff, and_comm]

theorem update_pub (key : Bytes) :
    store.state.update u (.pub ns key) =
      ((u.publicUpdates.lookup (ns, key)).or (store.db (encodeDataKey ns key))).filter fun vv => !isDelete vv :=
  elim_stored_eq_filter store (u.publicUpdates.lookup (ns, key)) (encodeDataKey ns key)

/-- The combined iterator returns what the query visits in the state that the updates lead to. -/
theorem combinedIterator_isRangeResult (rqi : RangeQueryInfo) :
    IsRangeResult (store.state.update u) ns rqi
      (combinedIterator store u ns rqi.startKey rqi.endKey (!rqi.itrExhausted)) := by
  have hf : (fun key => store.state.update u (.pub ns key)) =
      fun key => ((u.publicUpdates.lookup (ns, key)).or (store.db (encodeDataKey ns key))).filter fun vv => !isDelete vv :=
    funext (update_pub store u ns)
  refine ⟨(unionRight (store.getStateRangeScan ns rqi.startKey rqi.endKey)
    (getRangeScan u ns rqi.startKey rqi.endKey)).filter fun e => !isDelete e.2, ?_, ?_⟩
  · rw [hf]
    exact ((store.scan_enumerates ns rqi.startKey rqi.endKey).unionRight
      (getRangeScan_enumerates u ns rqi.startKey rqi.endKey)).filter fun vv => !isDelete vv
  · rw [combinedIterator, update_pub]
    cases rqi.itrExhausted with
    | true => rfl
    | false =>
      rw [Bool.not_false, if_pos rfl, serveEndKey]
      cases (u.publicUpdates.lookup (ns, rqi.endKey)).or (store.db (encodeDataKey ns rqi.endKey)) with
      | none => rfl
      | some vv => cases hd : isDelete vv <;> simp [hd, Option.filter]

theorem IsRangeResult.unique {s : State} {l₁ l₂ : List (Bytes × VersionedValue)} (h₁ : IsRangeResult s ns rqi l₁)
    (h₂ : IsRangeResult s ns rqi l₂) : l₁ = l₂ := by
  obtain ⟨r₁, he₁, rfl⟩ := h₁
  obtain ⟨r₂, he₂, rfl⟩ := h₂
  rw [he₁.unique he₂]

end

section

variable {hashFunc : Bytes → Bytes} {serializeKVReads : List KVRead → Bytes} {store : StateStore}
  {u : PublicAndHashUpdates} {nsRWSets : List NsRwSet}

theorem validateNs_eq_valid (h : validateNs hashFunc serializeKVReads store u nsRWSet = .ok code)
    (hrd : ReadsPass store u (nsReads nsRWSet))
    (hrn : ∀ rqi ∈ nsRWSet.kvRwSet.rangeQueriesInfo, ∃ results,
      IsRangeResult (store.state.update u) nsRWSet.nameSpace rqi results ∧
        Records hashFunc serializeKVReads rqi.readsInfo (results.map fun e => (e.1, e.2.version))) :
    code = .valid := by
  obtain ⟨hp, hh⟩ := readsPass_nsReads.mp hrd
  rw [validateNs, hp, hh, if_neg (by simp), bind_eq_ok] at h
  obtain ⟨noPhantoms, ha, h⟩ := h
  cases noPhantoms with
  | true =>
    cases h
    rfl
  | false =>
    obtain ⟨rqi, hrq, hf⟩ := exists_of_all_eq_ok_false ha
    obtain ⟨results, hr, hrec⟩ := hrn rqi hrq
    rw [IsRangeResult.unique _ hr (combinedIterator_isRangeResult store u _ rqi)] at hrec
    cases (compareResults_eq_ok hf).mpr hrec

theorem readsPass_of_validateTx (h : validateTx hashFunc serializeKVReads store u nsRWSets = .ok .valid) :
    ReadsPass store u (nsRWSets.flatMap nsReads) := by
  intro r hr
  obtain ⟨nsRWSet, hns, hr⟩ := mem_flatMap.mp hr
  obtain ⟨hrd, _, hh⟩ := validateNs_eq_valid_iff.mp (validateTx_eq_valid_iff.mp h nsRWSet hns)
  exact readsPass_nsReads.mpr ⟨hrd, hh⟩ r hr

theorem validateTx_eq_valid (h : validateTx hashFunc serializeKVReads store u nsRWSets = .ok code)
    (hrd : ReadsPass store u (nsRWSets.flatMap nsReads))
    (hrn : RangeQueriesMatch hashFunc serializeKVReads (store.state.update u) ⟨nsRWSets⟩) : code = .valid := by
  induction nsRWSets with
  | nil =>
    cases h
    rfl
  | cons nsRWSet nsRWSets ih =>
    have hsp := forall_mem_append.mp hrd
    obtain ⟨code', hc', h⟩ := bind_eq_ok.mp h
    have hvl : code' = .valid := validateNs_eq_valid hc' hsp.1 (hrn nsRWSet (by simp))
    rw [if_pos hvl] at h
    exact ih h hsp.2 fun ns hns => hrn ns (by simp [hns])

theorem readsPass_of_mvccCode (h : mvccCode hashFunc serializeKVReads store true u tx = .ok .valid) :
    ReadsPass store u (pointReads tx.rwset) := by
  rw [mvccCode] at h
  by_cases hvl : tx.validationCode = .valid
  · rw [if_pos hvl] at h
    exact readsPass_of_validateTx h
  · rw [if_neg hvl] at h
    exact absurd (Outcome.ok.inj h) hvl

end

section

variable {hashFunc : Bytes → Bytes} {serializeKVReads : List KVRead → Bytes} {store : StateStore}
  {sha256 : Bytes → Bytes} {serialize : List KVMetadataEntry → Bytes} {blk : Block}

structure BatchOf (store : StateStore) (sha256 : Bytes → Bytes) (serialize : List KVMetadataEntry → Bytes) (blk : Block)
    (done : List (Transaction × TxValidationCode)) (u : PublicAndHashUpdates) : Prop where
  state_eq : store.state.update u = store.state.commitTxs sha256 serialize blk done
  touched : ∀ k, (entry u k).isSome → Touched sha256 serialize done k
  plainDeletes : PlainDeletes u

theorem batchOf_nil : BatchOf store sha256 serialize blk [] newPubAndHashUpdates where
  state_eq := by
    funext k
    cases k <;> rfl
  touched := by
    intro k h
    cases k <;> cases h
  plainDeletes := .new

theorem commitTxs_append_singleton (s : State) (done : List (Transaction × TxValidationCode))
    (tx : Transaction × TxValidationCode) :
    s.commitTxs sha256 serialize blk (done ++ [tx]) =
      (s.commitTxs sha256 serialize blk done).commitTx sha256 serialize blk tx := by
  rw [State.commitTxs, foldl_append]
  rfl

variable {done : List (Transaction × TxValidationCode)}

theorem Touched.append {rest : List (Transaction × TxValidationCode)} (h : Touched sha256 serialize done k) :
    Touched sha256 serialize (done ++ rest) k := by
  obtain ⟨tx, htx, hk⟩ := h
  exact ⟨tx, by simp [htx], hk⟩

variable {u : PublicAndHashUpdates}

theorem BatchOf.skip (h : BatchOf store sha256 serialize blk done u) (hc : code ≠ .valid) :
    BatchOf store sha256 serialize blk (done ++ [(tx, code)]) u where
  state_eq := by
    rw [h.state_eq, commitTxs_append_singleton, State.commitTx]
    split
    · exact absurd (by assumption) hc
    · rfl
  touched k hk := (h.touched k hk).append
  plainDeletes := h.plainDeletes

variable {u' : PublicAndHashUpdates} {txHeight : Version}

theorem exists_writeKey (c : CompositeKey) : ∃ k : StateKey, k.writeKey = some c := by
  obtain ⟨ns, coll, key⟩ := c
  by_cases hc : coll = []
  · subst hc
    exact ⟨.pub ns key, rfl⟩
  · exact ⟨.hashed ns coll key, if_neg hc⟩

theorem update_eq_applyWriteSet_iff {rwset : TxRwSet} :
    store.state.update u' = (store.state.update u).applyWriteSet sha256 serialize rwset txHeight ↔
      ∀ c, latest u' store.db c = merged (opsFor (txOps sha256 serialize rwset) c) txHeight (latest u store.db c) := by
  constructor
  · intro h c
    obtain ⟨k, hk⟩ := exists_writeKey c
    have hkk := congrFun h k
    rwa [State.applyWriteSet, hk, Option.elim_some, update_eq_latest hk, update_eq_latest hk] at hkk
  · intro h
    funext k
    rw [State.applyWriteSet]
    cases hk : k.writeKey with
    | none =>
      rw [State.update, State.update, entry_eq_get, entry_eq_get, hk]
      rfl
    | some c => rw [Option.elim_some, update_eq_latest hk, update_eq_latest hk, h c]

theorem BatchOf.applyWriteSet (h : BatchOf store sha256 serialize blk done u)
    (hh : blk.committingTxHeight tx.indexInBlock = .ok txHeight)
    (hu : applyWriteSet sha256 serialize u tx.rwset txHeight store.db = .ok u')
    (hm : ∀ c, latest u' store.db c =
      merged (opsFor (txOps sha256 serialize tx.rwset) c) txHeight (latest u store.db c)) :
    BatchOf store sha256 serialize blk (done ++ [(tx, .valid)]) u' where
  state_eq := by
    rw [update_eq_applyWriteSet_iff.mpr hm, h.state_eq, commitTxs_append_singleton, State.commitTx, hh]
  touched := by
    intro k hk
    rw [entry_eq_get] at hk
    obtain ⟨vv, hvv⟩ := Option.isSome_iff_exists.mp hk
    obtain ⟨c, hc, hg⟩ := Option.bind_eq_some_iff.mp hvv
    by_cases ho : opsFor (txOps sha256 serialize tx.rwset) c = []
    · rw [applyWriteSet_eq_ltx] at hu
      rw [get_of_applyLtxWriteSet hu c, lookup_applyLtxRwset, if_pos ho] at hg
      refine (h.touched k ?_).append
      rw [entry_eq_get, hc]
      exact Option.isSome_iff_exists.mpr ⟨vv, hg⟩
    · exact ⟨(tx, .valid), by simp, rfl, c, hc, ho⟩
  plainDeletes := h.plainDeletes.applyWriteSet hu

variable {tracker tracker' : PurgeTracker}

theorem BatchOf.prepareTx (h : BatchOf store sha256 serialize blk done u) (tracker : PurgeTracker)
    (hp : Processable hashFunc serializeKVReads store sha256 serialize blk u tx) :
    ∃ code u' tracker',
      prepareTx hashFunc serializeKVReads store sha256 serialize blk true u tracker tx = .ok (code, u', tracker') ∧
      mvccCode hashFunc serializeKVReads store true u tx = .ok code ∧
      BatchOf store sha256 serialize blk (done ++ [(tx, code)]) u' := by
  obtain ⟨code, hcd, hvld⟩ := hp
  by_cases hvl : code = .valid
  · obtain ⟨⟨txHeight, hh⟩, hf⟩ := hvld hvl
    obtain ⟨u', hu', hm⟩ := (exists_merged_iff h.plainDeletes tx.rwset txHeight).mpr hf
    subst hvl
    exact ⟨_, u', _, prepareTx_eq_ok_iff.mpr ⟨hcd, .inl ⟨rfl, txHeight, hh, hu', rfl⟩⟩, hcd, h.applyWriteSet hh hu' hm⟩
  · exact ⟨code, u, tracker, prepareTx_eq_ok_iff.mpr ⟨hcd, .inr ⟨hvl, rfl, rfl⟩⟩, hcd, h.skip hvl⟩

theorem prepareTxs_withTxs (u : PublicAndHashUpdates) (tracker : PurgeTracker) (txs txs' : List Transaction) :
    prepareTxs hashFunc serializeKVReads store sha256 serialize { blk with txs := txs' } true u tracker txs =
      prepareTxs hashFunc serializeKVReads store sha256 serialize blk true u tracker txs :=
  rfl

variable {txs : List Transaction} {codes : List TxValidationCode}

theorem BatchOf.prepareTxs (h : BatchOf store sha256 serialize blk done u)
    (hst : ∀ i tx codes u' tracker', txs[i]? = some tx →
      prepareTxs hashFunc serializeKVReads store sha256 serialize blk true u tracker (txs.take i) =
        .ok (codes, u', tracker') →
      Processable hashFunc serializeKVReads store sha256 serialize blk u' tx) :
    ∃ codes u' tracker',
      prepareTxs hashFunc serializeKVReads store sha256 serialize blk true u tracker txs = .ok (codes, u', tracker') ∧
      BatchOf store sha256 serialize blk (done ++ txs.zip codes) u' ∧
      ∀ i tx, txs[i]? = some tx → ∃ code uᵢ, codes[i]? = some code ∧
        BatchOf store sha256 serialize blk (done ++ (txs.zip codes).take i) uᵢ ∧
        mvccCode hashFunc serializeKVReads store true uᵢ tx = .ok code := by
  induction txs generalizing done u tracker with
  | nil => exact ⟨[], u, tracker, rfl, by simpa using h, by simp⟩
  | cons tx txs ih =>
    obtain ⟨code, u₁, tracker₁, hste, hcd, hn⟩ := h.prepareTx tracker (hst 0 tx [] u tracker rfl rfl)
    obtain ⟨codes, u', tracker', hr, hf, hall⟩ := ih hn fun i tx' codes u' tracker' htx' hrn => by
      apply hst (i + 1) tx' (code :: codes) u' tracker' htx'
      exact mapAccumM_cons_eq_ok.mpr ⟨code, (u₁, tracker₁), codes, hste, hrn, rfl⟩
    refine ⟨code :: codes, u', tracker', ?_, by simpa using hf, ?_⟩
    · exact mapAccumM_cons_eq_ok.mpr ⟨code, (u₁, tracker₁), codes, hste, hr, rfl⟩
    · intro i tx' htx'
      cases i with
      | zero =>
        cases htx'
        exact ⟨code, u, rfl, by simpa using h, hcd⟩
      | succ i =>
        obtain ⟨code', uᵢ, hc, hb, hm⟩ := hall i tx' htx'
        exact ⟨code', uᵢ, hc, by simpa using hb, hm⟩

theorem prepareTx_of_take_succ {uᵢ : PublicAndHashUpdates} {trackerᵢ : PurgeTracker} {i : Nat}
    {codesᵢ : List TxValidationCode} (htx : txs[i]? = some tx)
    (hᵢ : prepareTxs hashFunc serializeKVReads store sha256 serialize blk true u tracker (txs.take i) =
      .ok (codesᵢ, uᵢ, trackerᵢ))
    (h : prepareTxs hashFunc serializeKVReads store sha256 serialize blk true u tracker (txs.take (i + 1)) =
      .ok (codes, u', tracker')) :
    ∃ code, prepareTx hashFunc serializeKVReads store sha256 serialize blk true uᵢ trackerᵢ tx =
        .ok (code, u', tracker') ∧ (txs.take (i + 1)).zip codes = (txs.take i).zip codesᵢ ++ [(tx, code)] := by
  induction txs generalizing u tracker codes codesᵢ i with
  | nil => simp at htx
  | cons tx' txs ih =>
    obtain ⟨code, ⟨u₁, tracker₁⟩, codes₁, hst, hr, rfl⟩ := mapAccumM_cons_eq_ok.mp h
    cases i with
    | zero =>
      cases htx
      cases hᵢ
      cases hr
      exact ⟨code, hst, rfl⟩
    | succ i =>
      obtain ⟨_, _, codes₂, hs', hᵢ, rfl⟩ := mapAccumM_cons_eq_ok.mp hᵢ
      cases hst.symm.trans hs'
      obtain ⟨code', hp, hz⟩ := ih htx hᵢ hr
      exact ⟨code', hp, congrArg ((tx', code) :: ·) hz⟩

theorem processable_of_serial (hu : PlainDeletes u) {code : TxValidationCode}
    (hp : prepareTx hashFunc serializeKVReads store sha256 serialize blk true u tracker tx = .ok (code, u', tracker'))
    (hs : store.state.update u' = (store.state.update u).commitTx sha256 serialize blk (tx, code)) :
    Processable hashFunc serializeKVReads store sha256 serialize blk u tx := by
  obtain ⟨hcd, hc⟩ := prepareTx_eq_ok_iff.mp hp
  refine ⟨code, hcd, fun hvl => ?_⟩
  obtain ⟨_, txHeight, hh, hu', _⟩ := hc.resolve_right fun hi => hi.1 hvl
  rw [State.commitTx, hvl, hh] at hs
  exact ⟨⟨txHeight, hh⟩, (exists_merged_iff hu tx.rwset txHeight).mp ⟨u', hu', update_eq_applyWriteSet_iff.mp hs⟩⟩

theorem serializable_of_processable (h : ∀ i tx codes u tracker, blk.txs[i]? = some tx →
      prepareTxs hashFunc serializeKVReads store sha256 serialize blk true newPubAndHashUpdates ∅ (blk.txs.take i) =
        .ok (codes, u, tracker) →
      Processable hashFunc serializeKVReads store sha256 serialize blk u tx) :
    Serializable hashFunc serializeKVReads store sha256 serialize blk := by
  obtain ⟨codes, u, tracker, hru, hf, hst⟩ := batchOf_nil.prepareTxs h
  refine ⟨codes, u, tracker, hru, ?_, ?_, hf.state_eq⟩
  · intro i tx htx hvl
    obtain ⟨code, uᵢ, hc, hb, hm⟩ := hst i tx htx
    rw [hvl, Option.some.injEq] at hc
    rw [nil_append] at hb
    rw [← hb.state_eq]
    intro r hr
    obtain ⟨he, hvr⟩ := readsPass_of_mvccCode (hc ▸ hm) r hr
    rw [update_of_entry_eq_none he, hvr]
  · intro i tx htx hp hrd hu hrn
    obtain ⟨code, uᵢ, hc, hb, hm⟩ := hst i tx htx
    rw [nil_append] at hb
    rw [← hb.state_eq] at hrd hrn
    have he : ∀ r ∈ pointReads tx.rwset, entry uᵢ r.1 = none := by
      intro r hr
      by_contra hne
      exact hu r hr (hb.touched r.1 (Option.isSome_iff_ne_none.mpr hne))
    rw [mvccCode, if_pos hp] at hm
    have hps : ReadsPass store uᵢ (pointReads tx.rwset) := fun r hr =>
      ⟨he r hr, by rw [← update_of_entry_eq_none (he r hr), hrd r hr]⟩
    rw [hc, validateTx_eq_valid hm hps hrn]

end

/-- Validation is serializable up to each transaction of the block exactly if every transaction can be processed on top
of the updates of the transactions before it. -/
theorem serializable_iff_processable (hashFunc : Bytes → Bytes) (serializeKVReads : List KVRead → Bytes)
    (store : StateStore) (sha256 : Bytes → Bytes) (serialize : List KVMetadataEntry → Bytes) (blk : Block) :
    (∀ n, Serializable hashFunc serializeKVReads store sha256 serialize { blk with txs := blk.txs.take n }) ↔
      ∀ i tx codes u tracker, blk.txs[i]? = some tx →
        validateAndPrepareBatch hashFunc serializeKVReads store sha256 serialize { blk with txs := blk.txs.take i } true =
          .ok (codes, u, tracker) →
        Processable hashFunc serializeKVReads store sha256 serialize blk u tx := by
  simp only [validateAndPrepareBatch, prepareTxs_withTxs]
  constructor
  · intro h i tx codesᵢ uᵢ trackerᵢ htx hᵢ
    obtain ⟨codes₀, u₀, tracker₀, hr₀, _, _, hs₀⟩ := h i
    obtain ⟨codes, u, tracker, hr, _, _, hs⟩ := h (i + 1)
    rw [validateAndPrepareBatch, prepareTxs_withTxs] at hr hr₀
    cases hᵢ.symm.trans hr₀
    obtain ⟨code, hp, hz⟩ := prepareTx_of_take_succ htx hᵢ hr
    refine processable_of_serial (plainDeletes_of_foldlM (foldlM_applyView_of_prepareTxs hᵢ)) hp ?_
    rw [hs, hs₀, hz, commitTxs_append_singleton]
    rfl
  · intro h n
    refine serializable_of_processable fun i tx codes u tracker htx hr => ?_
    obtain ⟨hin, htx⟩ : i < n ∧ blk.txs[i]? = some tx := by simpa [getElem?_take] using htx
    rw [prepareTxs_withTxs, take_take, Nat.min_eq_left hin.le] at hr
    exact h i tx codes u tracker htx hr

/-- Two valid transactions, without reads: the first deletes the key `k`, the second changes only its
metadata. -/
def metadataAfterDelete : Block where
  num := 1
  sparseblockchainFilter := none
  txs := [
    { indexInBlock := 0
      rwset := ⟨[{ nameSpace := ascii "cc", kvRwSet := { writes := [⟨ascii "k", true, []⟩] } }]⟩
      validationCode := .valid },
    { indexInBlock := 1
      rwset := ⟨[{ nameSpace := ascii "cc", kvRwSet := { metadataWrites := [⟨ascii "k", [⟨ascii "m", ascii "v"⟩]⟩] } }]⟩
      validationCode := .valid }]

/-- The second transaction should be without effect; instead the nil value of the deletion is put
into the batch, which panics. -/
theorem not_serializable_metadataAfterDelete :
    validateAndPrepareBatch id (fun _ => []) StateStore.empty id (fun _ => ascii "mv") metadataAfterDelete true = .panic ∧
      ¬ Serializable id (fun _ => []) StateStore.empty id (fun _ => ascii "mv") metadataAfterDelete := by
  have hpn : validateAndPrepareBatch id (fun _ => []) StateStore.empty id (fun _ => ascii "mv") metadataAfterDelete
      true = .panic := rfl
  refine ⟨hpn, ?_⟩
  rintro ⟨codes, u, tracker, hr, _⟩
  cases hr

end Drunix.Ledger.Validation
