import Mathlib.Algebra.Order.BigOperators.Group.List
import Mathlib.Algebra.Order.Group.Nat
import Drunix.Lib.Gathering
import Drunix.Ledger.StateSql.Versions

namespace Drunix.Ledger.StateSql

open Lib Proto Outcome List

namespace SqlSchema

abbrev Versions := List ((Bytes × Bytes) × Option Version)

/-- A worker whose query fails sends the error, and then the rows it has read all the same. -/
def workerResponses (answers : SqlAnswers) (h : Handle) (rowsRead : Nat → Versions) (b : List TableKey × Nat) :
    List (Outcome Unit Versions) :=
  if answers.statement b.2 = .done then [h.foundVersions b.1] else [.err (), .ok (rowsRead b.2)]

def collectVersions (keys : List (Bytes × Bytes)) (workerCount : Nat) (channel : List (Outcome Unit Versions)) :
    Outcome Unit (AMap (Bytes × Bytes) (Option Version)) := do
  let responses ← (channel.take workerCount).mapM id
  return copyVersions keys responses.flatten

/-- An error if a worker has failed, and otherwise the versions of all requested keys. -/
def Collects (s : SqlSchema) (answers : SqlAnswers) (h : Handle) (keys : List (Bytes × Bytes))
    (batches : List (List TableKey)) (channel : List (Outcome Unit Versions)) : Prop :=
  if workersResult answers batches = .ok () then
    ∃ versions, collectVersions keys batches.length channel = .ok versions ∧
      ∀ k ∈ keys, versions.lookup k = some ((h.rows (s.versionLocation k)).map VersionedValue.version)
  else collectVersions keys batches.length channel = .err ()

variable {s : SqlSchema} {answers : SqlAnswers} {h : Handle} {keys : List (Bytes × Bytes)} {tableKeys : List TableKey}
  {batches : List (List TableKey)}

theorem workersResult_eq_ok_iff :
    workersResult answers batches = .ok () ↔ ∀ i < batches.length, answers.statement i = .done := by
  rw [workersResult, require_eq_ok, all_eq_true]
  constructor
  · intro ha i hi
    exact of_decide_eq_true (ha (batches[i], i) (by simp [mem_zipIdx_iff_getElem?]))
  · rintro ha ⟨b, i⟩ hb
    exact decide_eq_true (ha i (by simpa using snd_lt_of_mem_zipIdx hb))

theorem exists_foundVersions (hky : ∀ k ∈ keys, 0x00 ∉ k.1)
    (ht : ∀ tk ∈ tableKeys, ∃ k ∈ keys, tk = s.versionLocation k) :
    ∃ found, h.foundVersions tableKeys = .ok found := by
  refine exists_mapM_eq_ok fun tk htk => ?_
  obtain ⟨k, hk, rfl⟩ := ht tk (mem_of_mem_filter htk)
  exact ⟨_, by rw [versionLocation, decodeDataKey_encodeDataKey (hky k hk)]; rfl⟩

theorem collectVersions_of_perm (hky : ∀ k ∈ keys, 0x00 ∉ k.1)
    (ht : ∀ tk, tk ∈ batches.flatten ↔ ∃ k ∈ keys, tk = s.versionLocation k) {channel : List (Outcome Unit Versions)}
    (hp : channel.Perm (batches.map h.foundVersions)) :
    ∃ versions, collectVersions keys batches.length channel = .ok versions ∧
      ∀ k ∈ keys, versions.lookup k = some ((h.rows (s.versionLocation k)).map VersionedValue.version) := by
  have hfn : ∀ b ∈ batches, ∃ found, h.foundVersions b = .ok found := fun b hb =>
    exists_foundVersions hky fun tk htk => (ht tk).mp (mem_flatten_of_mem hb htk)
  obtain ⟨responses, hrs⟩ : ∃ responses, channel.mapM id = ok responses := by
    refine exists_mapM_eq_ok fun r hr => ?_
    obtain ⟨b, hb, rfl⟩ := mem_map.mp (hp.mem_iff.mp hr)
    exact hfn b hb
  refine ⟨copyVersions keys responses.flatten, ?_, fun k hk => ?_⟩
  · rw [collectVersions, take_of_length_le (by simp [hp.length_eq]), hrs]
    rfl
  · rw [lookup_copyVersions ?_ k, if_pos hk]
    intro e
    -- A batch gives the versions of the requested keys whose locations are in it.
    have hbt : ∀ b ∈ batches, ∀ found, h.foundVersions b = .ok found → (e ∈ found ↔
        (e.1 ∈ keys ∧ s.versionLocation e.1 ∈ b) ∧ h.rows (s.versionLocation e.1) ≠ none ∧
          e.2 = (h.rows (s.versionLocation e.1)).map VersionedValue.version) := by
      intro b hb found hfn
      have hk' : ∀ k ∈ keys.filter fun k => s.versionLocation k ∈ b, 0x00 ∉ k.1 := fun k hk =>
        hky k (mem_of_mem_filter hk)
      rw [mem_of_foundVersions hk' ?_ hfn, mem_filter, decide_eq_true_iff]
      intro tk
      constructor
      · intro htk
        obtain ⟨k, hk, rfl⟩ := (ht tk).mp (mem_flatten_of_mem hb htk)
        exact ⟨k, mem_filter.mpr ⟨hk, decide_eq_true htk⟩, rfl⟩
      · rintro ⟨k, hk, rfl⟩
        exact of_decide_eq_true (mem_filter.mp hk).2
    rw [mem_flatten]
    constructor
    · rintro ⟨found, hfn, he⟩
      obtain ⟨r, hr, hrf⟩ := exists_of_mem_mapM hrs hfn
      obtain ⟨b, hb, rfl⟩ := mem_map.mp (hp.mem_iff.mp hr)
      obtain ⟨⟨hk, -⟩, hrw⟩ := (hbt b hb found hrf).mp he
      exact ⟨hk, hrw⟩
    · rintro ⟨hk, hrw⟩
      obtain ⟨b, hb, htk⟩ := mem_flatten.mp ((ht _).mpr ⟨e.1, hk, rfl⟩)
      obtain ⟨found, hfn, hf⟩ := exists_mem_of_mapM hrs (hp.mem_iff.mpr (mem_map_of_mem hb))
      exact ⟨found, hfn, (hbt b hb found hf).mpr ⟨⟨hk, htk⟩, hrw⟩⟩

/-- `GetVersions` returns what it should, whatever the order of the goroutines, exactly if no worker fails. -/
theorem getVersions_returns_iff (s : SqlSchema) (answers : SqlAnswers) (h : Handle) (rowsRead : Nat → Versions)
    (keys : List (Bytes × Bytes)) (hkeys : ∀ k ∈ keys, 0x00 ∉ k.1) (tableKeys : List TableKey)
    (htables : (keys.mapM fun k => do
      useTable answers (s.getTableFromNamespace k.1)
      return s.versionLocation k) = .ok tableKeys) (batches : List (List TableKey))
    (hbatches : tableBatches s.batchsize Prod.fst tableKeys = .ok batches) :
    Inevitable (Gathering.Send batches.length) (Gathering.Ends (s.Collects answers h keys batches))
        ⟨batches.zipIdx.map (workerResponses answers h rowsRead), []⟩ ↔
      ∀ i < batches.length, answers.statement i = .done := by
  constructor
  · intro hr i hi
    by_contra hf
    have hrm := Gathering.room_of_inevitable hr
    have hlt : (batches.zipIdx.map fun _ => 1).sum <
        (batches.zipIdx.map fun b => (workerResponses answers h rowsRead b).length).sum := by
      refine sum_lt_sum _ _ (fun b _ => ?_) ⟨(batches[i], i), by simp [mem_zipIdx_iff_getElem?], ?_⟩
      · rw [workerResponses]
        split_ifs <;> simp
      · rw [workerResponses, if_neg hf]
        simp
    rw [length_flatten, map_map] at hrm
    refine absurd (hlt.trans_le hrm) ?_
    simp
  · intro hd
    have hsn : (batches.zipIdx.map (workerResponses answers h rowsRead)).flatten = batches.map h.foundVersions := by
      calc
        (batches.zipIdx.map (workerResponses answers h rowsRead)).flatten =
            ((batches.zipIdx.map Prod.fst).map fun b => [h.foundVersions b]).flatten := by
          rw [map_map]
          refine congrArg flatten (map_congr_left fun b hb => ?_)
          exact if_pos (hd b.2 (by simpa using snd_lt_of_mem_zipIdx hb))
        _ = batches.map h.foundVersions := by rw [zipIdx_map_fst, ← flatMap_def, ← map_eq_flatMap]
    refine Gathering.inevitable_of_room (by simp [hsn]) fun channel hp => ?_
    rw [hsn] at hp
    rw [Collects, if_pos (workersResult_eq_ok_iff.mpr hd)]
    exact collectVersions_of_perm hkeys (mem_flatten_versionBatches htables hbatches) hp

def payBatches : List (List TableKey) := [[channelSchema.versionLocation (ascii "pay", ascii "k")]]

def twoTables : List (Bytes × Bytes) := [(ascii "pay", ascii "k"), (ascii "loan", ascii "k")]

theorem getVersions_returns_payment : Inevitable (Gathering.Send 2)
    (Gathering.Ends (channelSchema.Collects {} (channelSchema.oneRow (ascii "pay") (ascii "k")) twoTables
      (twoTables.map fun k => [channelSchema.versionLocation k])))
    ⟨(twoTables.map fun k => [channelSchema.versionLocation k]).zipIdx.map
      (workerResponses {} (channelSchema.oneRow (ascii "pay") (ascii "k")) fun _ => []), []⟩ :=
  (getVersions_returns_iff channelSchema {} _ _ twoTables (by decide) _ rfl _ rfl).mpr fun _ _ => rfl

/-- The only worker fails: its second response finds the channel full, and `wg.Wait` never returns. -/
theorem failed_worker_blocks : ∃ st, Reachable (fun st => st = ⟨payBatches.zipIdx.map (workerResponses
        { statement := fun _ => .failed } (channelSchema.oneRow (ascii "pay") (ascii "k")) fun _ => []), []⟩)
      (Gathering.Send payBatches.length) st ∧ st.pending.flatten ≠ [] ∧ ∀ t, ¬ Gathering.Send payBatches.length st t := by
  have hsn : Gathering.Send 1 ⟨[[.err (), .ok []]], []⟩ ⟨[[(.ok [] : Outcome Unit Versions)]], [.err ()]⟩ :=
    @Gathering.Send.send (Outcome Unit Versions) 1 [] [] [] (.err ()) [.ok []] Nat.one_pos
  exact ⟨_, .step (.init rfl) hsn, by decide, fun t ht => absurd ht.room (by decide)⟩

end SqlSchema

end Drunix.Ledger.StateSql
