import Drunix.Ledger.LtxMvcc
import Drunix.Orderer.VersionDb

namespace Drunix.Ledger

open Lib Proto Orderer Outcome List

structure LtxColl where
  name : Bytes
  hashed : HashedRWSet
  pvtRwsetHash : Bytes

structure LtxNs where
  name : Bytes
  rwset : KVRWSet
  colls : List LtxColl

def LtxColl.message (c : LtxColl) : CollectionHashedReadWriteSet :=
  ⟨c.name, some c.hashed, c.pvtRwsetHash⟩

def LtxNs.message (n : LtxNs) : NsReadWriteSet :=
  ⟨n.name, some n.rwset, n.colls.map LtxColl.message⟩

/-- The same version, or none, for every public and every hashed key. -/
def SameVersions (odb : VersionDB) (db : StateDB) : Prop :=
  ∀ c : CompositeKey, c.WellNamed → odb c.dataKey = (db c.dataKey).map VersionedValue.version

def VersionedValue.mvcc (vv : VersionedValue) : VersionMVCC :=
  ⟨vv.version, vv.value = none⟩

structure SameUpdates (m : MvccMap) (u : PublicAndHashUpdates) : Prop where
  named_mvcc : ∀ k ∈ m, ∃ c : CompositeKey, c.WellNamed ∧ c.dataKey = k
  named_get : ∀ c, u.get c ≠ none → c.WellNamed
  lookup_eq : ∀ c, c.WellNamed → m.lookup c.dataKey = (u.get c).map VersionedValue.mvcc

theorem SameUpdates.empty : SameUpdates ∅ newPubAndHashUpdates where
  named_mvcc := by simp
  named_get := by
    intro c h
    exact absurd (newPubAndHashUpdates_get c) h
  lookup_eq := by
    intro c _
    rw [newPubAndHashUpdates_get]
    rfl

structure LtxNs.WellFormed (n : LtxNs) : Prop where
  name_zero : 0x00 ∉ n.name
  name_dollar : 0x24 ∉ n.name
  coll_ne_nil : ∀ c ∈ n.colls, c.name ≠ []
  coll_zero : ∀ c ∈ n.colls, 0x00 ∉ c.name
  noRangeQueries : n.rwset.rangeQueriesInfo = []

theorem LtxNs.WellFormed.wellNamed_public {n : LtxNs} (h : n.WellFormed) (key : Bytes) :
    CompositeKey.WellNamed ⟨n.name, [], key⟩ :=
  ⟨h.name_zero, h.name_dollar, by simp⟩

variable {c : LtxColl}

theorem LtxNs.WellFormed.wellNamed_hashed {n : LtxNs} (h : n.WellFormed) (hc : c ∈ n.colls) (keyHash : Bytes) :
    CompositeKey.WellNamed ⟨n.name, c.name, keyHash⟩ :=
  ⟨h.name_zero, h.name_dollar, h.coll_zero c hc⟩

/-- A public read names a version only of a key that has one. A hashed read of a key that the block has not updated is
not stale, and no public key of the namespace has the key hash as its name and another version. -/
structure LtxNs.ReadsMeet (odb : VersionDB) (m : MvccMap) (n : LtxNs) : Prop where
  publicReads : ∀ r ∈ n.rwset.reads, m.lookup (encodeDataKey n.name r.key) = none →
    odb (encodeDataKey n.name r.key) = none → r.version = none
  hashedReads : ∀ c ∈ n.colls, ∀ r ∈ c.hashed.hashedReads,
    m.lookup (encodeDataKey (deriveHashedDataNs n.name c.name) r.keyHash) = none →
      odb (encodeDataKey (deriveHashedDataNs n.name c.name) r.keyHash) = r.version ∧
        (odb (encodeDataKey n.name r.keyHash) = none ∨ odb (encodeDataKey n.name r.keyHash) = r.version)

section reads

variable {odb : VersionDB} {db : StateDB} {m : MvccMap} {u : PublicAndHashUpdates} {n : LtxNs}

section

variable (hv : SameVersions odb db) (hu : SameUpdates m u) (hn : n.WellFormed) (hr : n.ReadsMeet odb m)
include hv hu hn hr

theorem validateKVRead_eq {r : KVRead} (hm : r ∈ n.rwset.reads) :
    validateKVRead m odb n.name r = validateLtxKVRead db u n.name r := by
  have hl : m.lookup (encodeDataKey n.name r.key) =
      (u.publicUpdates.lookup (n.name, r.key)).map VersionedValue.mvcc :=
    hu.lookup_eq ⟨n.name, [], r.key⟩ (hn.wellNamed_public r.key)
  have hc : getVersion db n.name r.key = odb (encodeDataKey n.name r.key) :=
    (hv ⟨n.name, [], r.key⟩ (hn.wellNamed_public r.key)).symm
  rw [validateKVRead, validateLtxKVRead, hc, hl, Option.isSome_map, Bool.eq_iff_iff, validateVersion_eq_true]
  cases hp : u.publicUpdates.lookup (n.name, r.key) with
  | some vv => simp
  | none =>
    rw [hp] at hl
    have hrd := hr.publicReads r hm hl
    simp only [getKeyVersion, Option.isSome_none, true_and, Bool.false_eq_true, if_false, decide_eq_true_eq]
    constructor
    · rintro (hnn | hsm)
      · rw [hnn, hrd hnn]
      · exact hsm
    · exact Or.inr

theorem validateKVReadHash_eq (hc : c ∈ n.colls) {r : KVReadHash} (hm : r ∈ c.hashed.hashedReads) :
    validateKVReadHash m odb n.name c.name r = validateLtxKVReadHash db u n.name c.name r := by
  have hne : (⟨n.name, c.name, r.keyHash⟩ : CompositeKey).coll ≠ [] := hn.coll_ne_nil c hc
  have hl := hu.lookup_eq ⟨n.name, c.name, r.keyHash⟩ (hn.wellNamed_hashed hc r.keyHash)
  have hcv := (hv ⟨n.name, c.name, r.keyHash⟩ (hn.wellNamed_hashed hc r.keyHash)).symm
  rw [CompositeKey.dataKey_hashed hne] at hl hcv
  rw [u.get_hashed hne] at hl
  change getKeyHashVersion db n.name c.name r.keyHash = _ at hcv
  dsimp only at hl hcv
  rw [validateKVReadHash, validateLtxKVReadHash, hcv, hl, Option.isSome_map, Bool.eq_iff_iff, validateVersion_eq_true]
  cases hp : u.hashUpdates.lookup ⟨n.name, c.name, r.keyHash⟩ with
  | some vv => simp
  | none =>
    rw [hp] at hl
    have hrd := hr.hashedReads c hc r hm hl
    simp only [getKeyVersion, Option.isSome_none, true_and, Bool.false_eq_true, if_false, decide_eq_true_eq]
    exact iff_of_true hrd.2 hrd.1

end

def LtxNs.readsValid (db : StateDB) (u : PublicAndHashUpdates) (n : LtxNs) : Bool :=
  n.rwset.reads.all (validateLtxKVRead db u n.name) &&
    n.colls.all fun c => c.hashed.hashedReads.all (validateLtxKVReadHash db u n.name c.name)

theorem validateNameSpaceReadSet_message (hv : SameVersions odb db) (hu : SameUpdates m u) (hn : n.WellFormed)
    (hr : n.ReadsMeet odb m) : validateNameSpaceReadSet m odb n.message = .ok (n.readsValid db u) := by
  have hp : validateReadSet m odb n.message = .ok (n.rwset.reads.all (validateLtxKVRead db u n.name)) := by
    rw [← all_congr_of_mem fun r hm => validateKVRead_eq hv hu hn hr hm]
    rfl
  have hh : validateNsHashedReadSets m odb n.message = .ok (n.colls.all fun c =>
      c.hashed.hashedReads.all (validateLtxKVReadHash db u n.name c.name)) := by
    apply all_map_eq_ok
    intro c hc
    rw [← all_congr_of_mem fun r hm => validateKVReadHash_eq hv hu hn hr hc hm]
    rfl
  rw [validateNameSpaceReadSet, hp, hh, LtxNs.readsValid]
  cases n.rwset.reads.all (validateLtxKVRead db u n.name) <;> rfl

theorem validateLtxNs_message (rq : RangeQueryValidator) (hn : n.WellFormed) :
    validateLtxNs rq db u n.message = .ok (mvccStatus (n.readsValid db u)) := by
  have hh : validateNsLtxHashedReadSets db u n.name (n.colls.map LtxColl.message) = .ok (n.colls.all fun c =>
      c.hashed.hashedReads.all (validateLtxKVReadHash db u n.name c.name)) := by
    apply all_map_eq_ok
    intro c _
    rfl
  rw [validateLtxNs, LtxNs.readsValid]
  simp only [LtxNs.message, Outcome.deref, ok_bind, hn.noRangeQueries, hh]
  cases n.rwset.reads.all (validateLtxKVRead db u n.name) with
  | false => rfl
  | true => cases n.colls.all fun c => c.hashed.hashedReads.all (validateLtxKVReadHash db u n.name c.name) <;> rfl

theorem validateLtx_message (rq : RangeQueryValidator) {r : List LtxNs} (hn : ∀ n ∈ r, n.WellFormed) :
    validateLtx rq db u (r.map LtxNs.message) = .ok (mvccStatus (r.all (LtxNs.readsValid db u))) := by
  induction r with
  | nil => rfl
  | cons n r ih =>
    rw [map_cons, validateLtx, validateLtxNs_message rq (hn n (by simp)), all_cons]
    cases n.readsValid db u with
    | false => rfl
    | true => exact ih fun n' hn' => hn n' (by simp [hn'])

end reads

section writes

variable (sha256 : Bytes → Bytes) (serialize : List KVMetadataEntry → Bytes)

def LtxNs.ops (n : LtxNs) : List (CompositeKey × KeyOp) :=
  publicOps serialize n.name n.rwset ++
    (n.colls.map fun c => collectionOps sha256 serialize n.name c.name c.hashed).flatten

def LtxNs.writes (n : LtxNs) : List (CompositeKey × Bool) :=
  n.rwset.writes.map (fun w => (⟨n.name, [], w.key⟩, w.isDelete)) ++
    (n.colls.map fun c => c.hashed.hashedWrites.map fun w => (⟨n.name, c.name, w.keyHash⟩, w.isDelete)).flatten

structure LtxNs.DeletesFlagged (n : LtxNs) : Prop where
  publicWrites : ∀ w ∈ n.rwset.writes, w.value = [] → w.isDelete
  hashedWrites : ∀ c ∈ n.colls, ∀ w ∈ c.hashed.hashedWrites,
    w.valueHash = [] ∨ sha256 [] = w.valueHash → w.isDelete

theorem ltxOps_message (r : List LtxNs) :
    ltxOps sha256 serialize ⟨r.map LtxNs.message⟩ = .ok (r.map (LtxNs.ops sha256 serialize)).flatten := by
  have hns : ∀ n ∈ r, ltxNsOps sha256 serialize n.message = .ok (n.ops sha256 serialize) := by
    intro n _
    have hc : (n.colls.map LtxColl.message).mapM (ltxCollOps sha256 serialize n.name) =
        .ok (n.colls.map fun c => collectionOps sha256 serialize n.name c.name c.hashed) :=
      mapM_map_eq_ok fun c _ => rfl
    simp only [ltxNsOps, LtxNs.message, Outcome.deref, ok_bind, hc]
    rfl
  rw [ltxOps, mapM_map_eq_ok hns]
  rfl

theorem isWrite_ltxKVWriteOp (w : KVWrite) : (ltxKVWriteOp w).isWrite := by
  by_cases h : isLtxKVWriteDelete w <;> simp [ltxKVWriteOp, h, KeyOp.isWrite]

theorem ltxKVWriteOp_eq_delete (w : KVWrite) : decide (ltxKVWriteOp w = .delete) = isLtxKVWriteDelete w := by
  by_cases h : isLtxKVWriteDelete w <;> simp [ltxKVWriteOp, h]

theorem isWrite_ltxMetadataOp (entries : List KVMetadataEntry) : (ltxMetadataOp serialize entries).isWrite = false := by
  by_cases h : entries = [] <;> simp [ltxMetadataOp, h, KeyOp.isWrite]

theorem isLtxKVWriteDelete_hashed (w : KVWriteHash) (key : Bytes) :
    isLtxKVWriteDelete ⟨key, isLtxKVWriteHashDelete sha256 w, w.valueHash⟩ = isLtxKVWriteHashDelete sha256 w := by
  by_cases h : w.valueHash = [] <;> simp [isLtxKVWriteDelete, isLtxKVWriteHashDelete, h]

theorem filter_isWrite_append {A B : Type} {key : A → CompositeKey} {op : A → KeyOp} {flag : A → Bool}
    {key' : B → CompositeKey} {op' : B → KeyOp} {l : List A} {l' : List B}
    (h : ∀ a ∈ l, (op a).isWrite ∧ decide (op a = .delete) = flag a) (h' : ∀ b ∈ l', (op' b).isWrite = false) :
    ((l.map (fun a => (key a, op a)) ++ l'.map fun b => (key' b, op' b)).filter fun e => e.2.isWrite).map
      (fun e => (e.1, decide (e.2 = .delete))) = l.map fun a => (key a, flag a) := by
  have hl : (l.map fun a => (key a, op a)).filter (fun e => e.2.isWrite) = l.map fun a => (key a, op a) := by
    rw [filter_eq_self]
    intro e he
    obtain ⟨a, ha, rfl⟩ := mem_map.mp he
    exact (h a ha).1
  have hl' : (l'.map fun b => (key' b, op' b)).filter (fun e => e.2.isWrite) = [] := by
    rw [filter_eq_nil_iff]
    intro e he
    obtain ⟨b, hb, rfl⟩ := mem_map.mp he
    simp [h' b hb]
  rw [filter_append, hl, hl', append_nil, map_map]
  apply map_congr_left
  intro a ha
  exact Prod.ext rfl (h a ha).2

theorem LtxNs.filter_ops {n : LtxNs} (hd : n.DeletesFlagged sha256) :
    ((n.ops sha256 serialize).filter fun e => e.2.isWrite).map (fun e => (e.1, decide (e.2 = .delete))) =
      n.writes := by
  have hp : ((publicOps serialize n.name n.rwset).filter fun e => e.2.isWrite).map
      (fun e => (e.1, decide (e.2 = .delete))) =
        n.rwset.writes.map fun w => ((⟨n.name, [], w.key⟩ : CompositeKey), w.isDelete) := by
    apply filter_isWrite_append
    · intro w hw
      refine ⟨isWrite_ltxKVWriteOp w, ?_⟩
      have hf := hd.publicWrites w hw
      rw [ltxKVWriteOp_eq_delete, isLtxKVWriteDelete]
      cases hdl : w.isDelete with
      | true => rfl
      | false => simpa [hdl] using hf
    · exact fun w _ => isWrite_ltxMetadataOp serialize w.entries
  have hcl : ∀ c ∈ n.colls, ((collectionOps sha256 serialize n.name c.name c.hashed).filter
      fun e => e.2.isWrite).map (fun e => (e.1, decide (e.2 = .delete))) =
        c.hashed.hashedWrites.map fun w => ((⟨n.name, c.name, w.keyHash⟩ : CompositeKey), w.isDelete) := by
    intro c hc
    apply filter_isWrite_append
    · intro w hw
      refine ⟨isWrite_ltxKVWriteOp _, ?_⟩
      have hf := hd.hashedWrites c hc w hw
      rw [hashedWriteOp, ltxKVWriteOp_eq_delete, isLtxKVWriteDelete_hashed, isLtxKVWriteHashDelete]
      cases hdl : w.isDelete with
      | true => simp
      | false => simpa [hdl] using hf
    · exact fun w _ => isWrite_ltxMetadataOp serialize w.entries
  rw [LtxNs.ops, filter_append, map_append, hp, filter_flatten, map_flatten, map_map, map_map]
  congr 2
  exact map_congr_left hcl

def insertWrites (version : Version) (m : MvccMap) (writes : List (CompositeKey × Bool)) : MvccMap :=
  writes.foldl (fun m e => m.insert e.1.dataKey ⟨version, e.2⟩) m

theorem applyNameSpaceWriteSet_message {n : LtxNs} (hn : n.WellFormed) (m : MvccMap) (version : Version) :
    applyNameSpaceWriteSet m version n.message = .ok (insertWrites version m n.writes) := by
  have hc : ∀ (l : List LtxColl) (m : MvccMap), (∀ c ∈ l, c.name ≠ []) →
      applyWriteHashSet m n.name (l.map LtxColl.message) version = .ok (insertWrites version m
        (l.map fun c => c.hashed.hashedWrites.map fun w => (⟨n.name, c.name, w.keyHash⟩, w.isDelete)).flatten) := by
    intro l
    induction l with
    | nil => exact fun _ _ => rfl
    | cons c l ih =>
      intro m hne
      have hi : applyHashedWrites m n.name c.name c.hashed.hashedWrites version =
          insertWrites version m (c.hashed.hashedWrites.map fun w => (⟨n.name, c.name, w.keyHash⟩, w.isDelete)) := by
        rw [applyHashedWrites, insertWrites, foldl_map]
        simp only [CompositeKey.dataKey, if_neg (hne c (by simp))]
      have h := ih (applyHashedWrites m n.name c.name c.hashed.hashedWrites version)
        fun c' hc' => hne c' (by simp [hc'])
      rw [map_cons, map_cons, flatten_cons, insertWrites, foldl_append, ← insertWrites, ← insertWrites, ← hi, ← h]
      rfl
  have hp : applyWriteSet m n.name n.rwset.writes version =
      insertWrites version m (n.rwset.writes.map fun w => (⟨n.name, [], w.key⟩, w.isDelete)) := by
    rw [applyWriteSet, insertWrites, foldl_map]
    simp only [CompositeKey.dataKey, if_true]
  rw [applyNameSpaceWriteSet]
  simp only [LtxNs.message, Outcome.deref, ok_bind]
  rw [hc n.colls _ hn.coll_ne_nil, hp, LtxNs.writes, insertWrites, insertWrites, insertWrites, foldl_append]

end writes

end Drunix.Ledger
