import Drunix.Ledger.Reconciliation.PurgedKeys

namespace Drunix.Ledger.Reconciliation

open Lib Proto Vanilla Validation Expiry Outcome List

/-- `PvtKVWrite`, of a key in a collection. -/
structure OldWrite where
  key : CompositeKey
  kvWrite : KVWrite
  version : Version
  deriving DecidableEq

structure SavedState where
  store : StateStore
  savepoint : Option Version

section

variable (sha256 : Bytes → Bytes) (unmarshalKVRWSet : Bytes → Option KVRWSet)
  (updateExpiryInfoOfPvtDataOfOldBlocks : PvtUpdates → Outcome Unit Unit)

/-- `uniquePvtDataMap`, by key hashes. -/
abbrev UniquePvtData := AMap CompositeKey OldWrite

def updateUsingPvtWrite (uniquePvtData : UniquePvtData) (w : OldWrite) : UniquePvtData :=
  if (uniquePvtData.lookup (hashedKey sha256 w.key)).all fun pvtData => versionLt pvtData.version w.version then
    uniquePvtData.insert (hashedKey sha256 w.key) w
  else uniquePvtData

def txsOfOldBlocks (reconciled : List (UInt64 × List (UInt64 × TxPvtData))) : List (Version × TxPvtData) :=
  reconciled.flatMap fun blk => blk.2.map fun tx => (⟨blk.1, tx.1⟩, tx.2)

def writesOfTx (tx : Version × TxPvtData) : Outcome Unit (List OldWrite) := do
  let pvtRWSet ← txPvtRwSetFromProtoMsg unmarshalKVRWSet tx.2.writeSet
  return (pvtWrites pvtRWSet).map fun e => ⟨e.1, e.2, tx.1⟩

def updateUsingTxPvtData (uniquePvtData : UniquePvtData) (tx : Version × TxPvtData) : Outcome Unit UniquePvtData := do
  let writes ← writesOfTx unmarshalKVRWSet tx
  return writes.foldl (updateUsingPvtWrite sha256) uniquePvtData

def constructUniquePvtData (reconciled : List (UInt64 × List (UInt64 × TxPvtData))) : Outcome Unit UniquePvtData :=
  (txsOfOldBlocks reconciled).foldlM (updateUsingTxPvtData sha256 unmarshalKVRWSet) ∅

def getValueHash (db : StateDB) (hashed : CompositeKey) : Option VersionedValue :=
  db (encodeDataKey (deriveHashedDataNs hashed.ns hashed.coll) hashed.key)

/-- `checkIfPvtWriteIsStale`: nothing for a stale write, and the version at which another is stored. -/
def unlessStale (db : StateDB) (hashed : CompositeKey) (w : OldWrite) : Option OldWrite :=
  match getKeyHashVersion db hashed.ns hashed.coll hashed.key with
  | none => if isLtxKVWriteDelete w.kvWrite then some w else none
  | some committedVersion =>
    if committedVersion = w.version then some w
    else if (getValueHash db hashed).bind VersionedValue.value = some (sha256 w.kvWrite.value) then
      some { w with version := committedVersion }
    else none

def transformToUpdateBatch (uniquePvtData : UniquePvtData) : PvtUpdates :=
  (uniquePvtData.toPairs.map fun e => (e.2.key, pvtWriteEntry e.2.kvWrite e.2.version)).foldl
    (fun batch e => batch.insert e.1 e.2) ∅

/-- `ApplyPrivacyAwareUpdates`: without a height the savepoint stays. -/
def SavedState.applyUpdates (s : SavedState) (u : PublicAndHashUpdates) (pvtUpdates : PvtUpdates)
    (height : Option Version) : SavedState :=
  ⟨s.store.applyUpdates u pvtUpdates, height.or s.savepoint⟩

def removeStaleAndCommitPvtDataOfOldBlocks (reconciled : List (UInt64 × List (UInt64 × TxPvtData))) (s : SavedState) :
    Outcome Unit SavedState := do
  let uniquePvtData ← constructUniquePvtData sha256 unmarshalKVRWSet reconciled
  if uniquePvtData.entries.length = 0 then return s
  let batch := transformToUpdateBatch (uniquePvtData.filterMap (unlessStale sha256 s.store.db))
  updateExpiryInfoOfPvtDataOfOldBlocks batch
  return s.applyUpdates newPubAndHashUpdates batch none

end

variable {m : UniquePvtData} {hashed : CompositeKey}

section

variable {sha256 : Bytes → Bytes} {writes : List OldWrite} {w w' : OldWrite} {key : CompositeKey} {v v' : Version}

def IsNewest (writes : List OldWrite) (w : OldWrite) : Prop :=
  w ∈ writes ∧ ∀ w' ∈ writes, w'.key = w.key → versionLt w.version w'.version = false

theorem versionLt_eq_false_of_lt {u : Version} (h : versionLt u v) (h' : versionLt u v' = false) :
    versionLt v v' = false := by
  simp only [versionLt, Bool.or_eq_true, Bool.and_eq_true, decide_eq_true_iff, Bool.or_eq_false_iff,
    Bool.and_eq_false_iff, decide_eq_false_iff_not, UInt64.lt_iff_toNat_lt, ← UInt64.toNat_inj] at h h' ⊢
  omega

theorem versionLt_antisymm (h : versionLt v v' = false) (h' : versionLt v' v = false) : v = v' := by
  obtain ⟨b, t⟩ := v
  obtain ⟨b', t'⟩ := v'
  simp only [versionLt, Bool.or_eq_false_iff, Bool.and_eq_false_iff, decide_eq_false_iff_not, UInt64.lt_iff_toNat_lt,
    Version.mk.injEq, ← UInt64.toNat_inj] at h h' ⊢
  omega

theorem IsNewest.concat (h : IsNewest writes w) (h' : w'.key = w.key → versionLt w.version w'.version = false) :
    IsNewest (writes ++ [w']) w := by
  refine ⟨mem_append_left _ h.1, ?_⟩
  simp only [mem_append, mem_singleton, or_imp, forall_and, forall_eq]
  exact ⟨h.2, h'⟩

theorem isNewest_concat_self (h : ∀ w' ∈ writes, w'.key = w.key → versionLt w.version w'.version = false) :
    IsNewest (writes ++ [w]) w := by
  refine ⟨by simp, ?_⟩
  simp only [mem_append, mem_singleton, or_imp, forall_and, forall_eq]
  exact ⟨h, fun _ => by simp [versionLt]⟩

abbrev uniqueOf (sha256 : Bytes → Bytes) (writes : List OldWrite) : UniquePvtData :=
  writes.foldl (updateUsingPvtWrite sha256) ∅

theorem lookup_updateUsingPvtWrite_ne (h : hashed ≠ hashedKey sha256 w.key) :
    (updateUsingPvtWrite sha256 m w).lookup hashed = m.lookup hashed := by
  rw [updateUsingPvtWrite]
  split_ifs
  · exact AList.lookup_insert_ne h
  · rfl

variable (hinj : Function.Injective sha256)
include hinj

theorem hashedKey_injective : Function.Injective (hashedKey sha256) := by
  rintro ⟨ns, coll, key⟩ ⟨ns', coll', key'⟩ h
  simp only [hashedKey, CompositeKey.mk.injEq] at h
  rw [h.1, h.2.1, hinj h.2.2]

theorem lookup_uniqueOf (hashed : CompositeKey) :
    (∀ w, (uniqueOf sha256 writes).lookup hashed = some w → hashedKey sha256 w.key = hashed ∧ IsNewest writes w) ∧
      ((uniqueOf sha256 writes).lookup hashed = none → ∀ w ∈ writes, hashedKey sha256 w.key ≠ hashed) := by
  induction writes using List.reverseRecOn with
  | nil => exact ⟨fun w hw => (by cases hw), fun _ w hw => absurd hw not_mem_nil⟩
  | append_singleton writes w₀ ih =>
    obtain ⟨hsm, hn⟩ := ih
    rw [uniqueOf, foldl_concat]
    by_cases hk : hashed = hashedKey sha256 w₀.key
    · subst hk
      rw [updateUsingPvtWrite]
      cases hl : (uniqueOf sha256 writes).lookup (hashedKey sha256 w₀.key) with
      | none =>
        have hnw : IsNewest (writes ++ [w₀]) w₀ :=
          isNewest_concat_self fun w hw hky => absurd (congrArg _ hky) (hn hl w hw)
        simp [AList.lookup_insert, hnw]
      | some w =>
        obtain ⟨hky, hw⟩ := hsm w hl
        have hwk := hashedKey_injective hinj hky
        by_cases hlt : versionLt w.version w₀.version
        · have hnw : IsNewest (writes ++ [w₀]) w₀ := isNewest_concat_self fun w' hw' hk' =>
            versionLt_eq_false_of_lt hlt (hw.2 w' hw' (hk'.trans hwk.symm))
          simp [hlt, AList.lookup_insert, hnw]
        · have hnw : IsNewest (writes ++ [w₀]) w := hw.concat fun _ => Bool.eq_false_iff.mpr hlt
          simp [hlt, hl, hnw, hky]
    · rw [lookup_updateUsingPvtWrite_ne hk]
      refine ⟨fun w hw => ⟨(hsm w hw).1, (hsm w hw).2.concat fun hky => ?_⟩, fun hl w hw => ?_⟩
      · exact absurd ((hsm w hw).1.symm.trans (congrArg _ hky.symm)) hk
      · rcases mem_append.mp hw with hw | hw
        · exact hn hl w hw
        · exact fun heq => hk (heq.symm.trans (congrArg (hashedKey sha256 ·.key) (mem_singleton.mp hw)))

/-- The batch has what the newest write of a key amounts to. -/
theorem lookup_transformToUpdateBatch (hm : ∀ hashed w, m.lookup hashed = some w → hashedKey sha256 w.key = hashed)
    (key : CompositeKey) :
    (transformToUpdateBatch m).lookup key =
      (m.lookup (hashedKey sha256 key)).map fun w => pvtWriteEntry w.kvWrite w.version := by
  have hk : ∀ hashed w, m.lookup hashed = some w → w.key = key → hashed = hashedKey sha256 key := by
    rintro hashed w hw rfl
    exact (hm hashed w hw).symm
  cases hl : m.lookup (hashedKey sha256 key) with
  | none =>
    rw [Option.map_none, Option.eq_none_iff_forall_not_mem]
    intro v hv
    obtain ⟨e, he, heq⟩ := mem_map.mp (AMap.mem_of_lookup_foldl_insert hv)
    have hlk := AMap.mem_toPairs.mp he
    rw [hk e.1 e.2 hlk (congrArg Prod.fst heq), hl] at hlk
    cases hlk
  | some w =>
    have hw : w.key = key := hashedKey_injective hinj (hm _ w hl)
    rw [transformToUpdateBatch, AMap.lookup_foldl_insert_of_agree, if_pos]
    · rfl
    · rw [map_map]
      exact mem_map.mpr ⟨(hashedKey sha256 key, w), AMap.mem_toPairs.mpr hl, hw⟩
    · intro e he hek
      obtain ⟨e', he', rfl⟩ := mem_map.mp he
      have hlk := AMap.mem_toPairs.mp he'
      rw [hk e'.1 e'.2 hlk hek, hl] at hlk
      rw [Option.some.inj hlk]

end

section

variable (sha256 : Bytes → Bytes)

def reconciledRow (w : OldWrite) (hash row : Option VersionedValue) : Option VersionedValue :=
  if isLtxKVWriteDelete w.kvWrite then if hash = none then none else row
  else if hash.bind VersionedValue.value = some (sha256 w.kvWrite.value) then
    hash.map fun r => ⟨some w.kvWrite.value, [], r.version⟩
  else row

/-- The commit of reconciled writes: of each key the newest, if its value is that of the key hash or if
it deletes a key that is deleted; and nothing else. -/
structure CommitsNewest (writes : List OldWrite) (s s' : SavedState) : Prop where
  row : ∀ w, IsNewest writes w → s'.store.db (pvtDataKey w.key) =
    reconciledRow sha256 w (getValueHash s.store.db (hashedKey sha256 w.key)) (s.store.db (pvtDataKey w.key))
  readable : ∀ w, IsNewest writes w → isLtxKVWriteDelete w.kvWrite = false →
    (getValueHash s.store.db (hashedKey sha256 w.key)).bind VersionedValue.value = some (sha256 w.kvWrite.value) →
    getPrivateData sha256 s'.store.db w.key = .ok (some w.kvWrite.value)
  otherKeys : ∀ dataKey, (∀ w ∈ writes, pvtDataKey w.key ≠ dataKey) → s'.store.db dataKey = s.store.db dataKey
  hashedAndPublic : ∀ c : CompositeKey, c.WellNamed → s'.store.db c.dataKey = s.store.db c.dataKey
  savepoint : s'.savepoint = s.savepoint

/-- A key hash that is committed at the version of the newest write has the hash of that write; and one
whose newest write is a deletion has another hash. -/
def VersionsTell (writes : List OldWrite) (db : StateDB) : Prop :=
  ∀ w, IsNewest writes w → ∀ r, getValueHash db (hashedKey sha256 w.key) = some r →
    if isLtxKVWriteDelete w.kvWrite then r.version ≠ w.version ∧ r.value ≠ some (sha256 w.kvWrite.value)
    else r.version = w.version → r.value = some (sha256 w.kvWrite.value)

variable {sha256} {db : StateDB} {w w' : OldWrite}

theorem unlessStale_eq {row : Option VersionedValue} (h : ∀ r, getValueHash db (hashedKey sha256 w.key) = some r →
      if isLtxKVWriteDelete w.kvWrite then r.version ≠ w.version ∧ r.value ≠ some (sha256 w.kvWrite.value)
      else r.version = w.version → r.value = some (sha256 w.kvWrite.value)) :
    ((unlessStale sha256 db (hashedKey sha256 w.key) w).map fun w => pvtWriteEntry w.kvWrite w.version).elim row
        VersionedValue.stored =
      reconciledRow sha256 w (getValueHash db (hashedKey sha256 w.key)) row := by
  have hvr : getKeyHashVersion db (hashedKey sha256 w.key).ns (hashedKey sha256 w.key).coll
      (hashedKey sha256 w.key).key = (getValueHash db (hashedKey sha256 w.key)).map VersionedValue.version := rfl
  rw [unlessStale, reconciledRow, hvr]
  cases hr : getValueHash db (hashedKey sha256 w.key) with
  | none => by_cases hd : isLtxKVWriteDelete w.kvWrite <;> simp [hd, pvtWriteEntry, VersionedValue.stored]
  | some r =>
    have hrw := h r hr
    by_cases hd : isLtxKVWriteDelete w.kvWrite
    · simp only [if_pos hd] at hrw ⊢
      simp [hrw.1, hrw.2]
    · simp only [if_neg hd] at hrw ⊢
      by_cases hv : r.version = w.version
      · simp [hv, hrw hv, hd, pvtWriteEntry, VersionedValue.stored]
      · by_cases hvl : r.value = some (sha256 w.kvWrite.value) <;>
          simp [hv, hvl, hd, pvtWriteEntry, VersionedValue.stored]

theorem unlessStale_key (h : unlessStale sha256 db hashed w = some w') : w'.key = w.key := by
  rw [unlessStale] at h
  grind

theorem reconciledRow_congr (hinj : Function.Injective sha256) (hne : ∀ b, sha256 b ≠ [])
    (h : valueHash sha256 w.kvWrite = valueHash sha256 w'.kvWrite) :
    reconciledRow sha256 w = reconciledRow sha256 w' := by
  have ha : isLtxKVWriteDelete w.kvWrite ∧ isLtxKVWriteDelete w'.kvWrite ∨ w.kvWrite.value = w'.kvWrite.value ∧
      isLtxKVWriteDelete w.kvWrite = isLtxKVWriteDelete w'.kvWrite := by
    simp only [valueHash] at h
    simp only [isLtxKVWriteDelete]
    cases hd : w.kvWrite.isDelete <;> cases hd' : w'.kvWrite.isDelete <;> simp only [hd, hd'] at h
    · rw [hinj h]
      simp
    · exact absurd h (hne _)
    · exact absurd h.symm (hne _)
    · simp
  funext hash row
  rcases ha with ⟨hdl, hdl'⟩ | ⟨hvl, hdl⟩
  · rw [reconciledRow, reconciledRow, if_pos hdl, if_pos hdl']
  · rw [reconciledRow, reconciledRow, hvl, hdl]

variable {writes : List OldWrite} {s : SavedState} {p : PvtUpdates}

def FreshBatch (sha256 : Bytes → Bytes) (db : StateDB) (writes : List OldWrite) (p : PvtUpdates) : Prop :=
  ∀ key, p.lookup key =
    (((uniqueOf sha256 writes).lookup (hashedKey sha256 key)).bind (unlessStale sha256 db (hashedKey sha256 key))).map fun w => pvtWriteEntry w.kvWrite w.version

section

variable (hinj : Function.Injective sha256)
include hinj

theorem freshBatch_transformToUpdateBatch (db : StateDB) (writes : List OldWrite) :
    FreshBatch sha256 db writes
      (transformToUpdateBatch ((uniqueOf sha256 writes).filterMap (unlessStale sha256 db))) := by
  intro key
  rw [lookup_transformToUpdateBatch hinj, AMap.lookup_filterMap]
  intro hashed w hw
  rw [AMap.lookup_filterMap] at hw
  obtain ⟨w₀, hw₀, hf⟩ := Option.bind_eq_some_iff.mp hw
  rw [unlessStale_key hf, ((lookup_uniqueOf hinj hashed).1 w₀ hw₀).1]

theorem FreshBatch.exists_write (hp : FreshBatch sha256 db writes p) {key : CompositeKey} (h : p.lookup key ≠ none) :
    ∃ w ∈ writes, w.key = key := by
  rw [hp] at h
  cases hl : (uniqueOf sha256 writes).lookup (hashedKey sha256 key) with
  | none =>
    rw [hl] at h
    exact absurd rfl h
  | some w =>
    obtain ⟨hk, hw⟩ := (lookup_uniqueOf hinj _).1 w hl
    exact ⟨w, hw.1, hashedKey_injective hinj hk⟩

theorem FreshBatch.row (hp : FreshBatch sha256 s.store.db writes p) (hne : ∀ b, sha256 b ≠ [])
    {hao : OldWrite → Option Bytes} (ha : ∀ w w', w.key = w'.key → w.version = w'.version → hao w = hao w')
    (hmt : ∀ w ∈ writes, hao w = some (valueHash sha256 w.kvWrite)) (hnm : ∀ w ∈ writes, w.key.WellNamed)
    (ht : VersionsTell sha256 writes s.store.db) (hw : IsNewest writes w) :
    (s.store.applyUpdates newPubAndHashUpdates p).db (pvtDataKey w.key) =
      reconciledRow sha256 w (getValueHash s.store.db (hashedKey sha256 w.key)) (s.store.db (pvtDataKey w.key)) := by
  have hky : NamedKeys p := by
    intro k hk
    obtain ⟨w, hw, rfl⟩ := hp.exists_write hinj hk
    exact hnm w hw
  rw [applyUpdates_pvtDataKey (fun c hc => absurd (newPubAndHashUpdates_get c) hc) hky (hnm w hw.1), latestPvt, hp]
  cases hl : (uniqueOf sha256 writes).lookup (hashedKey sha256 w.key) with
  | none => exact absurd rfl ((lookup_uniqueOf hinj _).2 hl w hw.1)
  | some w₀ =>
    -- The write that was kept is as new as `w`, so both match the same hashed write.
    obtain ⟨hh, hw₀⟩ := (lookup_uniqueOf hinj _).1 w₀ hl
    have hke := hashedKey_injective hinj hh
    have hvr := versionLt_antisymm (hw.2 w₀ hw₀.1 hke) (hw₀.2 w hw.1 hke.symm)
    have hhs : some (valueHash sha256 w.kvWrite) = some (valueHash sha256 w₀.kvWrite) := by
      rw [← hmt w hw.1, ← hmt w₀ hw₀.1, ha w w₀ hke.symm hvr]
    rw [reconciledRow_congr hinj hne (Option.some.inj hhs), ← hke]
    exact unlessStale_eq (ht w₀ hw₀)

theorem FreshBatch.otherKeys (hp : FreshBatch sha256 s.store.db writes p) {dataKey : Bytes}
    (h : ∀ w ∈ writes, pvtDataKey w.key ≠ dataKey) :
    (s.store.applyUpdates newPubAndHashUpdates p).db dataKey = s.store.db dataKey := by
  rw [applyUpdates_db]
  refine AMap.overlay_of_notMem pvtDataKey VersionedValue.stored p s.store.db dataKey fun k hk heq => ?_
  obtain ⟨w, hw, rfl⟩ := hp.exists_write hinj fun hn => AList.lookup_eq_none.mp hn hk
  exact h w hw heq

end

variable {unmarshalKVRWSet : Bytes → Option KVRWSet} {updateExpiryInfo : PvtUpdates → Outcome Unit Unit}

theorem foldlM_updateUsingTxPvtData {txs : List (Version × TxPvtData)} {ws : List (List OldWrite)}
    (h : txs.mapM (writesOfTx unmarshalKVRWSet) = .ok ws) :
    txs.foldlM (updateUsingTxPvtData sha256 unmarshalKVRWSet) m = .ok (ws.flatten.foldl (updateUsingPvtWrite sha256) m) := by
  rw [mapM_eq_ok_iff] at h
  induction h generalizing m with
  | nil => rfl
  | cons htx _ ih =>
    rw [foldlM_cons, updateUsingTxPvtData, htx, flatten_cons, foldl_append]
    exact ih

/-- Reconciled data of valid transactions is committed, of each key the newest write, provided that the
version of a key hash tells its write. -/
theorem removeStaleAndCommit_newest (hinj : Function.Injective sha256) (hne : ∀ b, sha256 b ≠ [])
    (hexpiry : ∀ b, updateExpiryInfo b = .ok ()) {reconciled : List (UInt64 × List (UInt64 × TxPvtData))}
    {ws : List (List OldWrite)} (hws : (txsOfOldBlocks reconciled).mapM (writesOfTx unmarshalKVRWSet) = .ok ws)
    (txRWSet : Version → TxRwSet)
    (hmatch : ∀ w ∈ ws.flatten, (retrieveCollKVHashes (txRWSet w.version) w.key.ns w.key.coll).lookup
      (sha256 w.key.key) = some (valueHash sha256 w.kvWrite))
    (hnamed : ∀ w ∈ ws.flatten, w.key.WellNamed ∧ w.key.coll ≠ []) (htell : VersionsTell sha256 ws.flatten s.store.db) :
    ∃ s', removeStaleAndCommitPvtDataOfOldBlocks sha256 unmarshalKVRWSet updateExpiryInfo reconciled s = .ok s' ∧
      CommitsNewest sha256 ws.flatten s s' := by
  rw [removeStaleAndCommitPvtDataOfOldBlocks, constructUniquePvtData, foldlM_updateUsingTxPvtData hws, ok_bind]
  split_ifs with hz
  · have hnil : ∀ w ∈ ws.flatten, False := fun w hw =>
      (lookup_uniqueOf hinj _).2 ((AMap.length_eq_zero_iff _).mp hz _) w hw rfl
    exact ⟨s, rfl, fun w hw => (hnil w hw.1).elim, fun w hw => (hnil w hw.1).elim, fun _ _ => rfl, fun _ _ => rfl, rfl⟩
  · refine ⟨_, bind_eq_ok.mpr ⟨(), hexpiry _, rfl⟩, ?_⟩
    have hp := freshBatch_transformToUpdateBatch hinj s.store.db ws.flatten
    have hrw := fun w => hp.row (w := w) hinj hne (fun w w' hk hve => by rw [hk, hve]) hmatch
      (fun w hw => (hnamed w hw).1) htell
    have hpb : ∀ c : CompositeKey, c.WellNamed → (s.store.applyUpdates newPubAndHashUpdates _).db c.dataKey =
        s.store.db c.dataKey :=
      fun c hc => hp.otherKeys hinj fun w hw heq => dataKey_ne_pvtDataKey hc (hnamed w hw).1 heq.symm
    refine ⟨hrw, fun w hw hd hvl => ?_, fun dataKey => hp.otherKeys hinj, hpb, rfl⟩
    obtain ⟨hwl, hcl⟩ := hnamed w hw.1
    obtain ⟨r, hr, _⟩ := Option.bind_eq_some_iff.mp hvl
    have hst := hrw w hw
    rw [reconciledRow, if_neg (Bool.eq_false_iff.mp hd), if_pos hvl, hr] at hst
    have hvr := hpb (hashedKey sha256 w.key) ⟨hwl.1, hwl.2, hwl.3⟩
    rw [CompositeKey.dataKey_hashed (c := hashedKey sha256 w.key) hcl] at hvr
    have hve := congrArg (Option.map VersionedValue.version) (hvr.trans hr)
    exact (if_pos (hve.trans (congrArg (Option.map VersionedValue.version) hst).symm)).trans
      (congrArg (fun row => Outcome.ok (row.bind VersionedValue.value)) hst)

end

def oldBlocks : List (UInt64 × List (UInt64 × TxPvtData)) :=
  [(5, [(0, ⟨some ⟨[⟨ascii "n", [⟨ascii "c", [1]⟩]⟩]⟩⟩)])]

def oldWrite : OldWrite :=
  ⟨⟨ascii "n", ascii "c", ascii "k"⟩, ⟨ascii "k", false, ascii "v"⟩, ⟨5, 0⟩⟩

def committedHash (value : Bytes) (ver : Version) : SavedState :=
  ⟨StateStore.empty.put (hashedKey taggedHash oldWrite.key).dataKey ⟨some (taggedHash value), [], ver⟩, some ⟨20, 3⟩⟩

theorem removeStaleAndCommit_newest_later :
    ∃ s', removeStaleAndCommitPvtDataOfOldBlocks taggedHash (exampleWire [oldWrite.kvWrite]).unmarshal (fun _ => .ok ())
        oldBlocks (committedHash (ascii "v") ⟨9, 0⟩) = .ok s' ∧
      CommitsNewest taggedHash [oldWrite] (committedHash (ascii "v") ⟨9, 0⟩) s' := by
  have hws : (txsOfOldBlocks oldBlocks).mapM (writesOfTx (exampleWire [oldWrite.kvWrite]).unmarshal) = .ok [[oldWrite]] :=
    rfl
  refine removeStaleAndCommit_newest (fun a b h => (List.cons.inj h).2) (fun b => cons_ne_nil _ _) (fun _ => rfl)
    hws (fun _ => exampleRwset [oldWrite.kvWrite]) ?_ ?_ ?_
  · decide
  · simp only [flatten_singleton, forall_mem_singleton]
    exact ⟨⟨by decide, by decide, by decide⟩, by decide⟩
  · intro w hw r hr
    cases mem_singleton.mp hw.1
    have hrw : getValueHash (committedHash (ascii "v") ⟨9, 0⟩).store.db (hashedKey taggedHash oldWrite.key) =
        some ⟨some (taggedHash (ascii "v")), [], ⟨9, 0⟩⟩ := by decide
    cases hrw.symm.trans hr
    decide

/-- A key hash committed at the version of the write, with the hash of another value, is taken for the
hash of the write. -/
theorem same_version_not_compared :
    (retrieveCollKVHashes (exampleRwset [oldWrite.kvWrite]) (ascii "n") (ascii "c")).lookup (taggedHash (ascii "k")) =
        some (valueHash taggedHash oldWrite.kvWrite) ∧
      ∃ s', removeStaleAndCommitPvtDataOfOldBlocks taggedHash (exampleWire [oldWrite.kvWrite]).unmarshal
          (fun _ => .ok ()) oldBlocks (committedHash (ascii "w") ⟨5, 0⟩) = .ok s' ∧
        getPrivateData taggedHash s'.store.db oldWrite.key = .ok (some (ascii "v")) :=
  ⟨by decide, _, rfl, by decide⟩

end Drunix.Ledger.Reconciliation
