import Drunix.Lib.SortedMerge
import Drunix.Ledger.LtxMvcc

namespace Drunix.Ledger.Validation

open Lib Proto Outcome List Option

def InRange (startKey endKey key : Bytes) : Prop :=
  ¬ key < startKey ∧ (endKey = [] ∨ key < endKey)

instance (startKey endKey key : Bytes) : Decidable (InRange startKey endKey key) :=
  inferInstanceAs (Decidable (_ ∧ _))

/-- The committed state: a versioned key-value database together with its range scans, which list
the keys of a namespace in byte order. A deletion removes the entry, so a stored value is never nil. -/
structure StateStore where
  db : StateDB
  getStateRangeScan : Bytes → Bytes → Bytes → List (Bytes × VersionedValue)
  scan_enumerates : ∀ ns startKey endKey, Enumerates (getStateRangeScan ns startKey endKey)
    (fun key => db (encodeDataKey ns key)) (InRange startKey endKey)
  value_ne_none : ∀ key vv, db key = some vv → vv.value ≠ none

def StateStore.empty : StateStore where
  db _ := none
  getStateRangeScan _ _ _ := []
  scan_enumerates _ _ _ := ⟨List.Pairwise.nil, by simp⟩
  value_ne_none := by simp

section

variable (store : StateStore) (u : PublicAndHashUpdates)

def nsUpdates (ns : Bytes) : List (Bytes × VersionedValue) :=
  u.publicUpdates.entries.filterMap fun e => if e.1.1 = ns then some (e.1.2, e.2) else none

/-- `UpdateBatch.GetRangeScanIterator`. -/
def getRangeScan (ns startKey endKey : Bytes) : List (Bytes × VersionedValue) :=
  (sortByKey (nsUpdates u ns)).filter fun e => InRange startKey endKey e.1

def isDelete (vv : VersionedValue) : Bool :=
  vv.value = none

theorem elim_stored_eq_filter (o : Option VersionedValue) (key : Bytes) :
    o.elim (store.db key) VersionedValue.stored = (o.or (store.db key)).filter fun vv => !isDelete vv := by
  cases o with
  | none =>
    rw [elim_none, none_or]
    cases hdb : store.db key with
    | none => rfl
    | some vv =>
      have hne := store.value_ne_none key vv hdb
      rw [filter_some, if_pos (by simpa [isDelete] using hne)]
  | some vv =>
    rw [elim_some, some_or, filter_some, VersionedValue.stored, isDelete]
    by_cases hv : vv.value = none <;> simp [hv]

def serveEndKey (ns endKey : Bytes) : List (Bytes × VersionedValue) :=
  match (u.publicUpdates.lookup (ns, endKey)).or (store.db (encodeDataKey ns endKey)) with
  | none => []
  | some vv => if isDelete vv then [] else [(endKey, vv)]

/-- Everything the combined iterator over the database and the updates of the block returns, in order. -/
def combinedIterator (ns startKey endKey : Bytes) (includeEndKey : Bool) : List (Bytes × VersionedValue) :=
  (unionRight (store.getStateRangeScan ns startKey endKey) (getRangeScan u ns startKey endKey)).filter
      (fun e => !isDelete e.2) ++
    if includeEndKey then serveEndKey store u ns endKey else []

end

/-- `rangeQueryResultsValidator.validate`; a recorded read without a version is dereferenced. -/
def validateResults : List KVRead → List (Bytes × Version) → Outcome Unit Bool
  | [], results => .ok (results = [])
  | _ :: _, [] => .ok false
  | kvRead :: rqResults, (key, version) :: results =>
    if key ≠ kvRead.key then .ok false
    else do
      let readVersion ← .deref kvRead.version
      if version ≠ readVersion then return false else validateResults rqResults results

section

variable (hashFunc : Bytes → Bytes) (serializeKVReads : List KVRead → Bytes) (maxDegree : Nat)

def computeCombinedHash (hashes : List Bytes) : Bytes :=
  hashFunc hashes.flatten

/-- `merkleTree.update` on the levels of the tree, leaf level first; the last level is `maxLevel`. -/
def merkleUpdate : List (List Bytes) → Bytes → List (List Bytes)
  | [], h => [[h]]
  | hashes :: levels, h =>
    if (hashes ++ [h]).length ≤ maxDegree then (hashes ++ [h]) :: levels
    else [] :: merkleUpdate levels (computeCombinedHash hashFunc (hashes ++ [h]))

def promote : List Bytes → List Bytes
  | [] => []
  | [h] => [h]
  | hashes => [computeCombinedHash hashFunc hashes]

/-- `merkleTree.done`, with the hash carried up from the levels below. -/
def merkleDone (carry : List Bytes) : List (List Bytes) → List (List Bytes)
  | [] => []
  | [hashes] =>
    if (hashes ++ carry).length > maxDegree then [[], [computeCombinedHash hashFunc (hashes ++ carry)]]
    else [hashes ++ carry]
  | hashes :: levels => [] :: merkleDone (promote hashFunc (hashes ++ carry)) levels

/-- `QueryReadsMerkleSummary` without the degree, which is that of the tree. -/
structure MerkleSummary where
  maxLevel : Nat
  maxLevelHashes : List Bytes
  deriving DecidableEq

def getSummary (levels : List (List Bytes)) : MerkleSummary where
  maxLevel := levels.length
  maxLevelHashes := levels.getLastD []

structure ResultsHelper where
  pendingResults : List KVRead := []
  levels : List (List Bytes) := [[]]
  levels_ne_nil : levels ≠ [] := by decide

theorem merkleUpdate_ne_nil (levels : List (List Bytes)) (h : Bytes) :
    merkleUpdate hashFunc maxDegree levels h ≠ [] := by
  cases levels with
  | nil => simp [merkleUpdate]
  | cons hashes levels =>
    rw [merkleUpdate]
    split <;> simp

def ResultsHelper.processPendingResults (helper : ResultsHelper) : ResultsHelper where
  pendingResults := []
  levels := merkleUpdate hashFunc maxDegree helper.levels (hashFunc (serializeKVReads helper.pendingResults))
  levels_ne_nil := merkleUpdate_ne_nil _ _ _ _

def ResultsHelper.addResult (helper : ResultsHelper) (kvRead : KVRead) : ResultsHelper :=
  let added := { helper with pendingResults := helper.pendingResults ++ [kvRead] }
  if added.pendingResults.length > maxDegree then added.processPendingResults hashFunc serializeKVReads maxDegree
  else added

def ResultsHelper.getMerkleSummary (helper : ResultsHelper) : MerkleSummary :=
  getSummary helper.levels

/-- `Done`: there is no summary when the results were too few to be hashed. -/
def ResultsHelper.done (helper : ResultsHelper) : Option MerkleSummary :=
  if helper.levels = [[]] then none
  else
    let helper :=
      if helper.pendingResults = [] then helper
      else helper.processPendingResults hashFunc serializeKVReads maxDegree
    some (getSummary (merkleDone hashFunc maxDegree [] helper.levels))

def toKVRead (result : Bytes × Version) : KVRead where
  key := result.1
  version := some result.2

/-- `rangeQueryHashValidator.validate`; `matched` is `lastMatchedIndex + 1`. -/
def validateHashes (inMerkle : MerkleSummary) : Nat → ResultsHelper → List (Bytes × Version) → Outcome Unit Bool
  | _, helper, [] => .ok (helper.done hashFunc serializeKVReads maxDegree = some inMerkle)
  | matched, helper, result :: results =>
    let helper := helper.addResult hashFunc serializeKVReads maxDegree (toKVRead result)
    let merkle := helper.getMerkleSummary
    if merkle.maxLevel < inMerkle.maxLevel then validateHashes inMerkle matched helper results
    else if matched = merkle.maxLevelHashes.length then validateHashes inMerkle matched helper results
    else if merkle.maxLevelHashes.length > inMerkle.maxLevelHashes.length then .ok false
    else do
      let hash ← .deref merkle.maxLevelHashes[matched]?
      let inHash ← .deref inMerkle.maxLevelHashes[matched]?
      if hash ≠ inHash then return false else validateHashes inMerkle (matched + 1) helper results

end

section

variable (hashFunc : Bytes → Bytes) (serializeKVReads : List KVRead → Bytes)

/-- Comparison of the results of a re-executed range query with what the read set recorded of them;
a Merkle tree of degree below two cannot be built. -/
def compareResults (readsInfo : ReadsInfo) (results : List (Bytes × Version)) : Outcome Unit Bool :=
  match readsInfo with
  | .unset => validateResults [] results
  | .rawReads kvReads => validateResults kvReads results
  | .readsMerkleHashes maxDegree maxLevel maxLevelHashes =>
    if maxDegree < 2 then .err ()
    else validateHashes hashFunc serializeKVReads maxDegree.toNat ⟨maxLevel.toNat, maxLevelHashes⟩ 0 {} results

def validateRangeQuery (store : StateStore) (u : PublicAndHashUpdates) (ns : Bytes) (rqi : RangeQueryInfo) :
    Outcome Unit Bool :=
  compareResults hashFunc serializeKVReads rqi.readsInfo
    ((combinedIterator store u ns rqi.startKey rqi.endKey (!rqi.itrExhausted)).map fun e => (e.1, e.2.version))

def Records (readsInfo : ReadsInfo) (results : List (Bytes × Version)) : Prop :=
  match readsInfo with
  | .unset => results = []
  | .rawReads kvReads => kvReads = results.map toKVRead
  | .readsMerkleHashes maxDegree maxLevel maxLevelHashes =>
    ((results.map toKVRead).foldl (ResultsHelper.addResult hashFunc serializeKVReads maxDegree.toNat) {}).done
      hashFunc serializeKVReads maxDegree.toNat = some ⟨maxLevel.toNat, maxLevelHashes⟩

end

variable {results : List (Bytes × Version)} {kvReads : List KVRead} {b : Bool}

theorem validateResults_eq_ok (h : validateResults kvReads results = .ok b) :
    b = true ↔ kvReads = results.map toKVRead := by
  induction kvReads generalizing results with
  | nil =>
    rw [validateResults, Outcome.ok.injEq] at h
    rw [← h, decide_eq_true_iff, eq_comm (a := []), map_eq_nil_iff]
  | cons kvRead kvReads ih =>
    cases results with
    | nil =>
      cases h
      simp
    | cons result results =>
      obtain ⟨key, version⟩ := result
      rw [map_cons, List.cons.injEq]
      rw [validateResults] at h
      by_cases hk : key = kvRead.key
      · rw [if_neg (not_not.mpr hk), bind_eq_ok] at h
        obtain ⟨readVersion, hv, h⟩ := h
        rw [deref_eq_ok] at hv
        by_cases hvr : version = readVersion
        · rw [if_neg (not_not.mpr hvr)] at h
          have hr : kvRead = toKVRead (key, version) := by
            obtain ⟨k, v⟩ := kvRead
            cases hk
            cases hvr
            cases hv
            rfl
          rw [ih h, and_iff_right hr]
        · rw [if_pos hvr] at h
          cases h
          simp only [Bool.false_eq_true, false_iff, not_and]
          intro hr
          rw [hr] at hv
          exact absurd (Option.some.inj hv) hvr
      · rw [if_pos hk] at h
        cases h
        simp only [Bool.false_eq_true, false_iff, not_and]
        intro hr
        exact absurd (by rw [hr]; rfl) hk

/-- `t` can be the summary of the tree with summary `s` after more results. -/
def MerkleSummary.Extends (s t : MerkleSummary) : Prop :=
  s.maxLevel < t.maxLevel ∨ s.maxLevel = t.maxLevel ∧ s.maxLevelHashes <+: t.maxLevelHashes

theorem MerkleSummary.Extends.refl (s : MerkleSummary) : s.Extends s :=
  .inr ⟨rfl, prefix_refl _⟩

variable {t : MerkleSummary}

theorem MerkleSummary.Extends.trans {r s : MerkleSummary} (h₁ : r.Extends s) (h₂ : s.Extends t) : r.Extends t := by
  rcases h₁ with h₁ | ⟨h₁, hp₁⟩ <;> rcases h₂ with h₂ | ⟨h₂, hp₂⟩
  · exact .inl (by omega)
  · exact .inl (by omega)
  · exact .inl (by omega)
  · exact .inr ⟨h₁.trans h₂, hp₁.trans hp₂⟩

variable {levels : List (List Bytes)}

theorem MerkleSummary.Extends.cons {levels' : List (List Bytes)} (hashes hashes' : List Bytes) (hne : levels ≠ [])
    (h : (getSummary levels).Extends (getSummary levels')) :
    (getSummary (hashes :: levels)).Extends (getSummary (hashes' :: levels')) := by
  have hne' : levels' ≠ [] := by
    rintro rfl
    have hpos := length_pos_of_ne_nil hne
    rcases h with h | ⟨h, _⟩ <;> simp only [getSummary, length_nil] at h <;> omega
  obtain ⟨a, l, rfl⟩ := exists_cons_of_ne_nil hne
  obtain ⟨a', l', rfl⟩ := exists_cons_of_ne_nil hne'
  rcases h with h | ⟨h, hp⟩
  · left
    simpa [getSummary] using h
  · right
    refine ⟨by simpa [getSummary] using h, ?_⟩
    simpa [getSummary, getLastD_cons] using hp

section

variable (hashFunc : Bytes → Bytes) (serializeKVReads : List KVRead → Bytes) (maxDegree : Nat)

theorem merkleUpdate_extends (hne : levels ≠ []) (h : Bytes) :
    (getSummary levels).Extends (getSummary (merkleUpdate hashFunc maxDegree levels h)) := by
  induction levels generalizing h with
  | nil => exact absurd rfl hne
  | cons hashes levels ih =>
    rw [merkleUpdate]
    split_ifs with hd
    · cases levels with
      | nil => exact .inr ⟨rfl, prefix_append _ _⟩
      | cons l ls => exact (MerkleSummary.Extends.refl _).cons _ _ (by simp)
    · cases levels with
      | nil => exact .inl (by simp [getSummary, merkleUpdate])
      | cons l ls => exact (ih (by simp) _).cons _ _ (by simp)

theorem merkleDone_extends (hne : levels ≠ []) (carry : List Bytes) :
    (getSummary levels).Extends (getSummary (merkleDone hashFunc maxDegree carry levels)) := by
  induction levels generalizing carry with
  | nil => exact absurd rfl hne
  | cons hashes levels ih =>
    cases levels with
    | nil =>
      rw [merkleDone]
      split_ifs with hd
      · exact .inl (by simp [getSummary])
      · exact .inr ⟨rfl, prefix_append _ _⟩
    | cons l ls =>
      rw [merkleDone]
      · exact (ih (by simp) _).cons _ _ (by simp)
      · simp

theorem ResultsHelper.addResult_extends (helper : ResultsHelper) (kvRead : KVRead) :
    helper.getMerkleSummary.Extends (helper.addResult hashFunc serializeKVReads maxDegree kvRead).getMerkleSummary := by
  rw [addResult]
  split
  · exact merkleUpdate_extends _ _ helper.levels_ne_nil _
  · exact .refl _

variable {helper : ResultsHelper}

theorem ResultsHelper.done_extends (h : helper.done hashFunc serializeKVReads maxDegree = some t) :
    helper.getMerkleSummary.Extends t := by
  rw [done] at h
  split at h
  · cases h
  · cases h
    split
    · exact merkleDone_extends _ _ helper.levels_ne_nil _
    · exact (merkleUpdate_extends _ _ helper.levels_ne_nil _).trans
        (merkleDone_extends _ _ (merkleUpdate_ne_nil _ _ _ _) _)

theorem ResultsHelper.foldl_done_extends
    (h : (kvReads.foldl (addResult hashFunc serializeKVReads maxDegree) helper).done hashFunc serializeKVReads maxDegree =
      some t) : helper.getMerkleSummary.Extends t := by
  induction kvReads generalizing helper with
  | nil => exact done_extends _ _ _ h
  | cons kvRead kvReads ih => exact (addResult_extends _ _ _ helper kvRead).trans (ih h)

/-- The early exits of the comparison agree with the comparison of the complete trees: what is
compared on the way stays in the final summary. -/
theorem validateHashes_eq_ok {inMerkle : MerkleSummary} {matched : Nat}
    (h : validateHashes hashFunc serializeKVReads maxDegree inMerkle matched helper results = .ok b) :
    b = true ↔ ((results.map toKVRead).foldl (ResultsHelper.addResult hashFunc serializeKVReads maxDegree) helper).done
      hashFunc serializeKVReads maxDegree = some inMerkle := by
  induction results generalizing matched helper with
  | nil =>
    rw [validateHashes, Outcome.ok.injEq] at h
    rw [← h, decide_eq_true_iff]
    rfl
  | cons result results ih =>
    rw [validateHashes] at h
    rw [map_cons, foldl_cons]
    generalize helper.addResult hashFunc serializeKVReads maxDegree (toKVRead result) = helper at h ⊢
    by_cases hlv : helper.getMerkleSummary.maxLevel < inMerkle.maxLevel
    · rw [if_pos hlv] at h
      exact ih h
    · rw [if_neg hlv] at h
      by_cases hmt : matched = helper.getMerkleSummary.maxLevelHashes.length
      · rw [if_pos hmt] at h
        exact ih h
      · rw [if_neg hmt] at h
        by_cases hlen : helper.getMerkleSummary.maxLevelHashes.length > inMerkle.maxLevelHashes.length
        · rw [if_pos hlen] at h
          cases h
          simp only [Bool.false_eq_true, false_iff]
          intro hd
          rcases ResultsHelper.foldl_done_extends _ _ _ hd with he | ⟨_, he⟩
          · exact hlv he
          · have := he.length_le
            omega
        · rw [if_neg hlen, bind_eq_ok] at h
          obtain ⟨hash, hh, h⟩ := h
          obtain ⟨inHash, hih, h⟩ := bind_eq_ok.mp h
          rw [deref_eq_ok] at hh hih
          by_cases heq : hash = inHash
          · rw [if_neg (not_not.mpr heq)] at h
            exact ih h
          · rw [if_pos heq] at h
            cases h
            simp only [Bool.false_eq_true, false_iff]
            intro hd
            rcases ResultsHelper.foldl_done_extends _ _ _ hd with he | ⟨_, he⟩
            · exact hlv he
            · obtain ⟨hi, rfl⟩ := List.getElem?_eq_some_iff.mp hh
              rw [List.prefix_iff_getElem?.mp he matched hi] at hih
              exact heq (Option.some.inj hih)

end

theorem compareResults_eq_ok {hashFunc : Bytes → Bytes} {serializeKVReads : List KVRead → Bytes} {readsInfo : ReadsInfo}
    (h : compareResults hashFunc serializeKVReads readsInfo results = .ok b) :
    b = true ↔ Records hashFunc serializeKVReads readsInfo results := by
  cases readsInfo with
  | unset =>
    rw [validateResults_eq_ok h, eq_comm, map_eq_nil_iff]
    rfl
  | rawReads kvReads => exact validateResults_eq_ok h
  | readsMerkleHashes maxDegree maxLevel maxLevelHashes =>
    rw [compareResults] at h
    split at h
    · cases h
    · exact validateHashes_eq_ok _ _ _ h

/-- Six results fill the top level of a tree of degree two; nine results with the same beginning are
not reported as phantoms but index past the one hash of the next level. -/
example :
    compareResults id (fun l => l.flatMap KVRead.key) (.readsMerkleHashes 2 1 [[0, 1, 2], [3, 4, 5]])
      ((List.range 9).map fun i => ([UInt8.ofNat i], ⟨1, 0⟩)) = .panic := by
  decide

end Drunix.Ledger.Validation
