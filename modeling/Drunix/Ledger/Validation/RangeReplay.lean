import Mathlib.Algebra.Order.Ring.Nat
import Drunix.Ledger.Validation.RangeQuery

namespace Drunix.Ledger.Validation

open Lib Proto List Outcome

theorem emptyTree_ne_nil : ([[]] : List (List Bytes)) ≠ [] :=
  cons_ne_nil [] []

def newRangeQueryResultsHelper : ResultsHelper where
  levels_ne_nil := emptyTree_ne_nil

section

variable (hashFunc : Bytes → Bytes) (serializeKVReads : List KVRead → Bytes)

def ResultsHelper.readsInfo (maxDegree : UInt32) (helper : ResultsHelper) : ReadsInfo :=
  match helper.done hashFunc serializeKVReads maxDegree.toNat with
  | none => if helper.pendingResults = [] then .unset else .rawReads helper.pendingResults
  | some merkle => .readsMerkleHashes maxDegree (UInt32.ofNat merkle.maxLevel) merkle.maxLevelHashes

def ResultsHelper.addResults (maxDegree : Nat) (results : List (Bytes × Version)) : ResultsHelper :=
  (results.map toKVRead).foldl (ResultsHelper.addResult hashFunc serializeKVReads maxDegree) newRangeQueryResultsHelper

def recordedReads (maxDegree : UInt32) (results : List (Bytes × Version)) : ReadsInfo :=
  (ResultsHelper.addResults hashFunc serializeKVReads maxDegree.toNat results).readsInfo hashFunc serializeKVReads maxDegree

end

theorem toKVRead_injective : Function.Injective toKVRead := by
  rintro ⟨key, version⟩ ⟨key', version'⟩ h
  rw [toKVRead, toKVRead, KVRead.mk.injEq, Option.some.injEq] at h
  exact Prod.ext h.1 h.2

theorem validateResults_self (results : List (Bytes × Version)) :
    validateResults (results.map toKVRead) results = .ok true := by
  induction results with
  | nil => rfl
  | cons result results ih =>
    rw [map_cons, validateResults]
    simpa [toKVRead, deref] using ih

variable {merkle : MerkleSummary} {helper : ResultsHelper} {results : List (Bytes × Version)}

section

variable (hashFunc : Bytes → Bytes) (serializeKVReads : List KVRead → Bytes) (maxDegree : Nat)
  {inMerkle : MerkleSummary} {matched : Nat}

def Matched (inMerkle merkle : MerkleSummary) (matched : Nat) : Prop :=
  if merkle.maxLevel < inMerkle.maxLevel then matched = 0 else matched ≤ merkle.maxLevelHashes.length

theorem MerkleSummary.Extends.maxLevel_le {s t : MerkleSummary} (h : s.Extends t) : s.maxLevel ≤ t.maxLevel :=
  h.elim Nat.le_of_lt fun h => h.1.le

theorem Matched.extends {merkle' : MerkleSummary} (h : Matched inMerkle merkle matched) (he : merkle.Extends merkle')
    (hle : merkle'.maxLevel ≤ inMerkle.maxLevel) : Matched inMerkle merkle' matched := by
  rw [Matched] at h ⊢
  rcases he with hlt | ⟨heq, hpr⟩
  · rw [if_pos (by omega)] at h
    split
    · exact h
    · omega
  · rw [heq] at h
    have hlen := hpr.length_le
    split
    · next hlt => rwa [if_pos hlt] at h
    · next hlt =>
        rw [if_neg hlt] at h
        exact h.trans hlen

theorem foldl_extends (kvReads : List KVRead) (helper : ResultsHelper) :
    helper.getMerkleSummary.Extends
      (kvReads.foldl (ResultsHelper.addResult hashFunc serializeKVReads maxDegree) helper).getMerkleSummary := by
  induction kvReads generalizing helper with
  | nil => exact .refl _
  | cons kvRead kvReads ih =>
    exact (helper.addResult_extends hashFunc serializeKVReads maxDegree kvRead).trans (ih _)

/-- As long as the tree does not get above the recorded level, no index is past the hashes of a level. -/
theorem exists_validateHashes_eq_ok (hmt : Matched inMerkle helper.getMerkleSummary matched)
    (hle : ((results.map toKVRead).foldl (ResultsHelper.addResult hashFunc serializeKVReads maxDegree)
      helper).getMerkleSummary.maxLevel ≤ inMerkle.maxLevel) :
    ∃ b, validateHashes hashFunc serializeKVReads maxDegree inMerkle matched helper results = .ok b := by
  induction results generalizing matched helper with
  | nil => exact ⟨_, rfl⟩
  | cons result results ih =>
    rw [map_cons, foldl_cons] at hle
    rw [validateHashes]
    have he := helper.addResult_extends hashFunc serializeKVReads maxDegree (toKVRead result)
    generalize helper.addResult hashFunc serializeKVReads maxDegree (toKVRead result) = he' at hle he ⊢
    have hm' := hmt.extends he ((foldl_extends _ _ _ _ he').maxLevel_le.trans hle)
    by_cases hlv : he'.getMerkleSummary.maxLevel < inMerkle.maxLevel
    · rw [if_pos hlv]
      exact ih hm' hle
    · rw [if_neg hlv]
      by_cases ha : matched = he'.getMerkleSummary.maxLevelHashes.length
      · rw [if_pos ha]
        exact ih hm' hle
      · rw [if_neg ha]
        have hlt : matched < he'.getMerkleSummary.maxLevelHashes.length := by
          have hmd := hm'
          rw [Matched, if_neg hlv] at hmd
          omega
        split_ifs with hlen
        · exact ⟨false, rfl⟩
        · rw [getElem?_eq_getElem hlt, getElem?_eq_getElem (hlt.trans_le (Nat.not_lt.mp hlen)), deref, deref, ok_bind,
            ok_bind]
          split_ifs
          · exact ⟨false, rfl⟩
          · refine ih ?_ hle
            rw [Matched, if_neg hlv]
            exact hlt

theorem validateHashes_of_done (hmt : Matched inMerkle helper.getMerkleSummary matched)
    (h : ((results.map toKVRead).foldl (ResultsHelper.addResult hashFunc serializeKVReads maxDegree) helper).done
      hashFunc serializeKVReads maxDegree = some inMerkle) :
    validateHashes hashFunc serializeKVReads maxDegree inMerkle matched helper results = .ok true := by
  obtain ⟨b, hb⟩ := exists_validateHashes_eq_ok hashFunc serializeKVReads maxDegree hmt
    (ResultsHelper.done_extends _ _ _ h).maxLevel_le
  rw [hb, (validateHashes_eq_ok _ _ _ hb).mpr h]

theorem matched_zero (inMerkle merkle : MerkleSummary) : Matched inMerkle merkle 0 := by
  rw [Matched]
  split
  · rfl
  · exact Nat.zero_le _

end

section

variable {hashFunc : Bytes → Bytes} {serializeKVReads : List KVRead → Bytes}

theorem compareResults_eq_true_iff {readsInfo : ReadsInfo} (hd : ∀ maxDegree maxLevel maxLevelHashes,
      readsInfo = .readsMerkleHashes maxDegree maxLevel maxLevelHashes → ¬ maxDegree < 2) :
    compareResults hashFunc serializeKVReads readsInfo results = .ok true ↔
      Records hashFunc serializeKVReads readsInfo results := by
  constructor
  · exact fun h => (compareResults_eq_ok h).mp rfl
  · intro h
    cases readsInfo with
    | unset =>
      cases h
      rfl
    | rawReads kvReads =>
      cases h
      exact validateResults_self results
    | readsMerkleHashes maxDegree maxLevel maxLevelHashes =>
      rw [compareResults, if_neg (hd _ _ _ rfl)]
      exact validateHashes_of_done _ _ _ (matched_zero _ _) h

end

section

variable (hashFunc : Bytes → Bytes) (serializeKVReads : List KVRead → Bytes) {maxDegree : Nat}

variable {results : List (Bytes × Version)}

theorem addResults_of_le (hle : results.length ≤ maxDegree) :
    ResultsHelper.addResults hashFunc serializeKVReads maxDegree results = { pendingResults := results.map toKVRead } := by
  induction results using List.reverseRecOn with
  | nil => rfl
  | append_singleton results result ih =>
    rw [length_append, length_singleton] at hle
    have ih := ih (by omega)
    rw [ResultsHelper.addResults] at ih ⊢
    rw [map_append, foldl_append, ih, map_singleton, foldl_cons, foldl_nil, ResultsHelper.addResult]
    simp only [length_append, length_map, length_singleton]
    rw [if_neg (by omega)]

theorem merkleUpdate_ne_empty (levels : List (List Bytes)) (h : Bytes) : merkleUpdate hashFunc maxDegree levels h ≠ [[]] := by
  cases levels with
  | nil => simp [merkleUpdate]
  | cons hashes levels =>
    rw [merkleUpdate]
    split
    · simp
    · simp [merkleUpdate_ne_nil]

theorem addResults_of_gt (hgt : maxDegree < results.length) :
    (ResultsHelper.addResults hashFunc serializeKVReads maxDegree results).levels ≠ [[]] := by
  induction results using List.reverseRecOn with
  | nil => cases hgt
  | append_singleton results result ih =>
    rw [length_append, length_singleton] at hgt
    rw [ResultsHelper.addResults, map_append, foldl_append, map_singleton, foldl_cons,
      ← ResultsHelper.addResults, ResultsHelper.addResult]
    split
    · exact merkleUpdate_ne_empty _ _ _
    · next hp =>
        by_cases hm : maxDegree < results.length
        · exact ih hm
        · rw [addResults_of_le hashFunc serializeKVReads (by omega)] at hp
          simp only [length_append, length_map, length_singleton] at hp
          omega

/-- Each hash of a level stands for at least twice as many as one of the level below. -/
def merkleWeight : List (List Bytes) → Nat
  | [] => 0
  | hashes :: levels => hashes.length + 2 * merkleWeight levels

theorem merkleWeight_update (hd : 1 ≤ maxDegree) (levels : List (List Bytes)) (h : Bytes) :
    merkleWeight (merkleUpdate hashFunc maxDegree levels h) ≤ merkleWeight levels + 1 := by
  induction levels generalizing h with
  | nil => exact Nat.le_refl 1
  | cons hashes levels ih =>
    rw [merkleUpdate]
    split
    · simp only [merkleWeight, length_append, length_singleton]
      omega
    · next hf =>
        have hup := ih (computeCombinedHash hashFunc (hashes ++ [h]))
        simp only [length_append, length_singleton] at hf
        simp only [merkleWeight, length_nil]
        omega

def Topped (levels : List (List Bytes)) : Prop :=
  levels = [[]] ∨ levels.getLastD [] ≠ []

variable {levels : List (List Bytes)} {n : Nat}

theorem topped_update (h : Bytes) (ht : levels = [] ∨ Topped levels) :
    (merkleUpdate hashFunc maxDegree levels h).getLastD [] ≠ [] := by
  induction levels generalizing h with
  | nil => simp [merkleUpdate]
  | cons hashes levels ih =>
    rw [merkleUpdate]
    cases levels with
    | nil =>
      split
      · simp
      · simp [merkleUpdate]
    | cons hashes' levels =>
      have hl : (hashes' :: levels).getLastD [] ≠ [] := by
        rcases ht with hnil | he | hl
        · cases hnil
        · cases he
        · simpa [getLastD_cons] using hl
      split
      · simpa [getLastD_cons] using hl
      · have hup := ih (computeCombinedHash hashFunc (hashes ++ [h])) (.inr (.inr hl))
        obtain ⟨top, rest, hr⟩ := exists_cons_of_ne_nil
          (merkleUpdate_ne_nil hashFunc maxDegree (hashes' :: levels) (computeCombinedHash hashFunc (hashes ++ [h])))
        rw [hr] at hup ⊢
        simpa [getLastD_cons] using hup

theorem two_pow_le_merkleWeight (hne : levels ≠ []) (hl : levels.getLastD [] ≠ []) :
    2 ^ (levels.length - 1) ≤ merkleWeight levels := by
  induction levels with
  | nil => exact absurd rfl hne
  | cons hashes levels ih =>
    cases levels with
    | nil =>
      have hpos : 0 < hashes.length := length_pos_iff.mpr (by simpa using hl)
      simp only [length_singleton, merkleWeight]
      omega
    | cons hashes' levels =>
      have hup := ih (by simp) (by simpa [getLastD_cons] using hl)
      simp only [length_cons, Nat.add_sub_cancel, merkleWeight] at hup ⊢
      omega

theorem length_merkleDone_le (carry : List Bytes) (levels : List (List Bytes)) :
    (merkleDone hashFunc maxDegree carry levels).length ≤ levels.length + 1 := by
  induction levels generalizing carry with
  | nil => exact Nat.zero_le _
  | cons hashes levels ih =>
    cases levels with
    | nil =>
      rw [merkleDone]
      split <;> simp
    | cons hashes' levels =>
      rw [merkleDone]
      · simpa using ih _
      · simp

theorem addResult_weight (hd : 1 ≤ maxDegree) (kvRead : KVRead) (hw : merkleWeight helper.levels ≤ n)
    (ht : Topped helper.levels) :
    merkleWeight (helper.addResult hashFunc serializeKVReads maxDegree kvRead).levels ≤ n + 1 ∧
      Topped (helper.addResult hashFunc serializeKVReads maxDegree kvRead).levels := by
  rw [ResultsHelper.addResult]
  split
  · refine ⟨(merkleWeight_update hashFunc hd _ _).trans (Nat.add_le_add_right hw 1), .inr ?_⟩
    exact topped_update hashFunc _ (.inr ht)
  · exact ⟨hw.trans (Nat.le_succ n), ht⟩

theorem addResults_weight (hd : 1 ≤ maxDegree) (results : List (Bytes × Version)) :
    merkleWeight (ResultsHelper.addResults hashFunc serializeKVReads maxDegree results).levels ≤ results.length ∧
      Topped (ResultsHelper.addResults hashFunc serializeKVReads maxDegree results).levels := by
  induction results using List.reverseRecOn with
  | nil => exact ⟨Nat.le_refl 0, .inl rfl⟩
  | append_singleton results result ih =>
    rw [ResultsHelper.addResults, map_append, foldl_append, map_singleton, foldl_cons,
      ← ResultsHelper.addResults, length_append, length_singleton]
    exact addResult_weight hashFunc serializeKVReads hd _ ih.1 ih.2

theorem length_le_of_weight (hne : levels ≠ []) (ht : Topped levels) (hw : merkleWeight levels ≤ 2 ^ n) :
    levels.length ≤ n + 1 := by
  rcases ht with rfl | hl
  · exact Nat.le_add_left 1 n
  · have hp := (two_pow_le_merkleWeight hne hl).trans hw
    have hle := (Nat.pow_le_pow_iff_right (by decide : 1 < 2)).mp hp
    omega

theorem maxLevel_lt (hd : 1 ≤ maxDegree) (hsz : results.length < UInt64.size)
    (h : (ResultsHelper.addResults hashFunc serializeKVReads maxDegree results).done hashFunc serializeKVReads maxDegree =
      some merkle) : merkle.maxLevel < UInt32.size := by
  obtain ⟨hw, ht⟩ := addResults_weight hashFunc serializeKVReads hd results
  generalize ResultsHelper.addResults hashFunc serializeKVReads maxDegree results = helper at h hw ht
  rw [ResultsHelper.done] at h
  split at h
  · cases h
  · cases h
    have hln : ∀ levels : List (List Bytes), levels ≠ [] → Topped levels → merkleWeight levels ≤ results.length + 1 →
        (getSummary (merkleDone hashFunc maxDegree [] levels)).maxLevel < UInt32.size := by
      intro levels hne ht' hw'
      have hb : results.length + 1 ≤ 2 ^ 64 := hsz
      have hlv := length_le_of_weight hne ht' (hw'.trans hb)
      have hdn := @length_merkleDone_le hashFunc maxDegree [] levels
      have hsm : 66 < UInt32.size := by decide
      change (merkleDone hashFunc maxDegree [] levels).length < UInt32.size
      omega
    split
    · exact hln _ helper.levels_ne_nil ht (by omega)
    · apply hln _ (merkleUpdate_ne_nil _ _ _ _)
      · exact .inr (topped_update hashFunc _ (.inr ht))
      · exact (merkleWeight_update hashFunc hd _ _).trans (Nat.add_le_add_right hw 1)

end

section

variable {hashFunc : Bytes → Bytes} {serializeKVReads : List KVRead → Bytes} {maxDegree : UInt32}
  {results results' : List (Bytes × Version)}

theorem recordedReads_of_le (hle : results.length ≤ maxDegree.toNat) :
    recordedReads hashFunc serializeKVReads maxDegree results =
      if results = [] then .unset else .rawReads (results.map toKVRead) := by
  rw [recordedReads, addResults_of_le hashFunc serializeKVReads hle, ResultsHelper.readsInfo, ResultsHelper.done, if_pos rfl]
  simp only [map_eq_nil_iff]

theorem exists_recordedReads_of_gt (hgt : maxDegree.toNat < results.length) :
    ∃ merkle, (ResultsHelper.addResults hashFunc serializeKVReads maxDegree.toNat results).done hashFunc serializeKVReads
        maxDegree.toNat = some merkle ∧
      recordedReads hashFunc serializeKVReads maxDegree results =
        .readsMerkleHashes maxDegree (UInt32.ofNat merkle.maxLevel) merkle.maxLevelHashes := by
  have hlv := addResults_of_gt hashFunc serializeKVReads hgt
  refine ⟨_, by rw [ResultsHelper.done, if_neg hlv], ?_⟩
  rw [recordedReads, ResultsHelper.readsInfo, ResultsHelper.done, if_neg hlv]

theorem records_recordedReads_of_le (hle : results.length ≤ maxDegree.toNat) :
    Records hashFunc serializeKVReads (recordedReads hashFunc serializeKVReads maxDegree results) results' ↔
      results = results' := by
  rw [recordedReads_of_le hle]
  by_cases hnil : results = []
  · rw [hnil]
    exact eq_comm
  · rw [if_neg hnil]
    exact (map_injective_iff.mpr toKVRead_injective).eq_iff

theorem recordedReads_eq_iff_of_le (hle : results.length ≤ maxDegree.toNat) :
    recordedReads hashFunc serializeKVReads maxDegree results = recordedReads hashFunc serializeKVReads maxDegree results' ↔
      results = results' := by
  constructor
  · intro h
    by_cases hle' : results'.length ≤ maxDegree.toNat
    · rw [recordedReads_of_le hle, recordedReads_of_le hle'] at h
      by_cases hnil : results = [] <;> by_cases hn' : results' = []
      · rw [hnil, hn']
      · rw [if_pos hnil, if_neg hn'] at h
        cases h
      · rw [if_neg hnil, if_pos hn'] at h
        cases h
      · rw [if_neg hnil, if_neg hn', ReadsInfo.rawReads.injEq] at h
        exact map_injective_iff.mpr toKVRead_injective h
    · obtain ⟨merkle, _, hmr⟩ := @exists_recordedReads_of_gt hashFunc serializeKVReads maxDegree results' (by omega)
      rw [recordedReads_of_le hle, hmr] at h
      split at h <;> cases h
  · rintro rfl
    rfl

theorem records_recordedReads_iff (hd : 1 ≤ maxDegree.toNat) (hsz : results.length < UInt64.size)
    (hs' : results'.length < UInt64.size) :
    Records hashFunc serializeKVReads (recordedReads hashFunc serializeKVReads maxDegree results) results' ↔
      recordedReads hashFunc serializeKVReads maxDegree results = recordedReads hashFunc serializeKVReads maxDegree results' := by
  by_cases hle : results.length ≤ maxDegree.toNat
  · rw [records_recordedReads_of_le hle, recordedReads_eq_iff_of_le hle]
  · obtain ⟨merkle, hdn, hmr⟩ := @exists_recordedReads_of_gt hashFunc serializeKVReads maxDegree results (by omega)
    have hlv := maxLevel_lt hashFunc serializeKVReads hd hsz hdn
    have hn : (UInt32.ofNat merkle.maxLevel).toNat = merkle.maxLevel := UInt32.toNat_ofNat_of_lt' hlv
    have hrc : Records hashFunc serializeKVReads (recordedReads hashFunc serializeKVReads maxDegree results) results' ↔
        (ResultsHelper.addResults hashFunc serializeKVReads maxDegree.toNat results').done hashFunc serializeKVReads
          maxDegree.toNat = some merkle := by
      rw [hmr, Records, hn]
      rfl
    rw [hrc, hmr]
    by_cases hle' : results'.length ≤ maxDegree.toNat
    · rw [addResults_of_le hashFunc serializeKVReads hle', ResultsHelper.done, recordedReads_of_le hle']
      refine iff_of_false (by simp) ?_
      split <;> simp
    · obtain ⟨merkle', hd', hm'⟩ := @exists_recordedReads_of_gt hashFunc serializeKVReads maxDegree results' (by omega)
      have hl' := maxLevel_lt hashFunc serializeKVReads hd hs' hd'
      rw [hd', hm', Option.some.injEq, ReadsInfo.readsMerkleHashes.injEq]
      constructor
      · rintro rfl
        exact ⟨rfl, rfl, rfl⟩
      · rintro ⟨_, hmax, hh⟩
        have hmx' := congrArg UInt32.toNat hmax
        rw [hn, UInt32.toNat_ofNat_of_lt' hl'] at hmx'
        obtain ⟨maxLevel', maxLevelHashes'⟩ := merkle'
        cases hmx'
        cases hh
        rfl

theorem compareResults_recordedReads_iff (hd : ¬ maxDegree < 2) (hsz : results.length < UInt64.size)
    (hs' : results'.length < UInt64.size) :
    compareResults hashFunc serializeKVReads (recordedReads hashFunc serializeKVReads maxDegree results) results' = .ok true ↔
      recordedReads hashFunc serializeKVReads maxDegree results = recordedReads hashFunc serializeKVReads maxDegree results' := by
  have ht : 2 ≤ maxDegree.toNat := by
    have hle := UInt32.not_lt.mp hd
    exact UInt32.le_iff_toNat_le.mp hle
  rw [compareResults_eq_true_iff, records_recordedReads_iff (by omega) hsz hs']
  intro maxDegree' maxLevel maxLevelHashes h
  by_cases hle : results.length ≤ maxDegree.toNat
  · rw [recordedReads_of_le hle] at h
    split at h <;> cases h
  · obtain ⟨merkle, _, hmr⟩ := @exists_recordedReads_of_gt hashFunc serializeKVReads maxDegree results (by omega)
    rw [hmr, ReadsInfo.readsMerkleHashes.injEq] at h
    rw [← h.1]
    exact hd

end

end Drunix.Ledger.Validation
