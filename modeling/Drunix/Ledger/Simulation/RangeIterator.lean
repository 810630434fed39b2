import Drunix.Ledger.Validation.RangeReplay

namespace Drunix.Ledger.Simulation

open Lib Proto Validation List Option

def maxDegreeQueryReadsHashing : UInt32 := 50

structure RangeQuery where
  ns : Bytes
  startKey : Bytes
  endKey : Bytes
  pageSize : Int := 0
  deriving DecidableEq

def RangeQuery.results (store : StateStore) (q : RangeQuery) : List (Bytes × VersionedValue) :=
  if 0 < q.pageSize then (store.getStateRangeScan q.ns q.startKey q.endKey).take q.pageSize.toNat
  else store.getStateRangeScan q.ns q.startKey q.endKey

def asRead (e : Bytes × VersionedValue) : Bytes × Version :=
  (e.1, e.2.version)

/-- `resultsItr`; `endKey` and `itrExhausted` are those of its `rangeQueryInfo`. -/
structure ResultsItr where
  query : RangeQuery
  dbItr : List (Bytes × VersionedValue)
  endKey : Bytes := []
  itrExhausted : Bool := false
  rangeQueryResultsHelper : ResultsHelper := newRangeQueryResultsHelper

def newResultsItr (store : StateStore) (q : RangeQuery) : ResultsItr where
  query := q
  dbItr := q.results store

section

variable (hashFunc : Bytes → Bytes) (serializeKVReads : List KVRead → Bytes)

/-- `Next` with its `updateRangeQueryInfo`. -/
def ResultsItr.next (itr : ResultsItr) : ResultsItr :=
  match itr.dbItr with
  | [] => { itr with itrExhausted := true, endKey := itr.query.endKey }
  | e :: rest =>
    { itr with
      dbItr := rest
      endKey := e.1
      rangeQueryResultsHelper := itr.rangeQueryResultsHelper.addResult hashFunc serializeKVReads
        maxDegreeQueryReadsHashing.toNat (toKVRead (asRead e)) }

def ResultsItr.rangeQueryInfo (itr : ResultsItr) : RangeQueryInfo where
  startKey := itr.query.startKey
  endKey := itr.endKey
  itrExhausted := itr.itrExhausted
  readsInfo := itr.rangeQueryResultsHelper.readsInfo hashFunc serializeKVReads maxDegreeQueryReadsHashing

def rangeQueryInfoAfter (store : StateStore) (q : RangeQuery) (n : Nat) : RangeQueryInfo :=
  ((ResultsItr.next hashFunc serializeKVReads)^[n] (newResultsItr store q)).rangeQueryInfo hashFunc serializeKVReads

/-- The use of an iterator that a validation on the same state accepts. One that was never advanced is replayed
as a scan without an end; one that its page ended is replayed over the whole range. -/
def IteratorSafe (store : StateStore) (q : RangeQuery) (n : Nat) : Prop :=
  if n = 0 then ∀ key, store.db (encodeDataKey q.ns key) ≠ none → key ≠ [] ∧ key < q.startKey
  else if n ≤ (q.results store).length then ((q.results store).take n).getLast?.map Prod.fst ≠ some []
  else
    recordedReads hashFunc serializeKVReads maxDegreeQueryReadsHashing ((q.results store).map asRead) =
      recordedReads hashFunc serializeKVReads maxDegreeQueryReadsHashing
        ((store.getStateRangeScan q.ns q.startKey q.endKey).map asRead)

end

variable {n : Nat}

section

variable (hashFunc : Bytes → Bytes) (serializeKVReads : List KVRead → Bytes) (store : StateStore) (q : RangeQuery)

theorem next_iterate_of_le (hn : n ≤ (q.results store).length) :
    (ResultsItr.next hashFunc serializeKVReads)^[n] (newResultsItr store q) =
      { query := q
        dbItr := (q.results store).drop n
        endKey := (((q.results store).take n).getLast?.map Prod.fst).getD []
        itrExhausted := false
        rangeQueryResultsHelper := ResultsHelper.addResults hashFunc serializeKVReads maxDegreeQueryReadsHashing.toNat
          (((q.results store).take n).map asRead) } := by
  induction n with
  | zero => rfl
  | succ n ih =>
    have hlt : n < (q.results store).length := hn
    rw [Function.iterate_succ_apply', ih (Nat.le_of_succ_le hn), take_succ_eq_append_getElem hlt, map_append, getLast?_concat]
    simp only [ResultsItr.next, drop_eq_getElem_cons hlt, ResultsHelper.addResults, map_append, foldl_append]
    rfl

theorem next_iterate_of_gt (hn : (q.results store).length < n) :
    (ResultsItr.next hashFunc serializeKVReads)^[n] (newResultsItr store q) =
      { query := q
        dbItr := []
        endKey := q.endKey
        itrExhausted := true
        rangeQueryResultsHelper := ResultsHelper.addResults hashFunc serializeKVReads maxDegreeQueryReadsHashing.toNat
          ((q.results store).map asRead) } := by
  induction n with
  | zero => cases hn
  | succ n ih =>
    rw [Function.iterate_succ_apply']
    rcases Nat.lt_succ_iff_lt_or_eq.mp hn with hlt | heq
    · rw [ih hlt]
      rfl
    · rw [next_iterate_of_le hashFunc serializeKVReads store q (Nat.le_of_eq heq.symm), ← heq, drop_length, take_length]
      rfl

end

section

variable {hashFunc : Bytes → Bytes} {serializeKVReads : List KVRead → Bytes} {store : StateStore} {q : RangeQuery}

theorem serveEndKey_newPubAndHashUpdates (ns endKey : Bytes) :
    serveEndKey store newPubAndHashUpdates ns endKey =
      ((store.db (encodeDataKey ns endKey)).map fun vv => (endKey, vv)).toList := by
  have hu : newPubAndHashUpdates.publicUpdates.lookup (ns, endKey) = none := rfl
  rw [serveEndKey, hu]
  cases hdb : store.db (encodeDataKey ns endKey) with
  | none => rfl
  | some vv =>
    have hne := store.value_ne_none _ _ hdb
    simp [isDelete, hne]

theorem combinedIterator_newPubAndHashUpdates (ns startKey endKey : Bytes) (includeEndKey : Bool) :
    combinedIterator store newPubAndHashUpdates ns startKey endKey includeEndKey =
      store.getStateRangeScan ns startKey endKey ++
        if includeEndKey then ((store.db (encodeDataKey ns endKey)).map fun vv => (endKey, vv)).toList else [] := by
  have hu : getRangeScan newPubAndHashUpdates ns startKey endKey = [] := rfl
  have hun : unionRight (store.getStateRangeScan ns startKey endKey) [] = store.getStateRangeScan ns startKey endKey := by
    cases store.getStateRangeScan ns startKey endKey with
    | nil => rw [unionRight]
    | cons e l => rw [unionRight]
  have hk : (store.getStateRangeScan ns startKey endKey).filter (fun e => !isDelete e.2) =
      store.getStateRangeScan ns startKey endKey := by
    rw [filter_eq_self]
    intro e he
    have hdb := ((store.scan_enumerates ns startKey endKey).mem_iff e.1 e.2).mp he
    simpa [isDelete] using store.value_ne_none _ _ hdb.2
  rw [combinedIterator, hu, hun, hk, serveEndKey_newPubAndHashUpdates]

theorem getStateRangeScan_upTo {ns startKey endKey key : Bytes} {vv : VersionedValue} {pre post : List (Bytes × VersionedValue)}
    (hsc : store.getStateRangeScan ns startKey endKey = pre ++ (key, vv) :: post) (hk : key ≠ []) :
    store.getStateRangeScan ns startKey key = pre := by
  have he := store.scan_enumerates ns startKey endKey
  rw [hsc] at he
  have hsr := pairwise_append.mp he.sorted
  have hp := pairwise_cons.mp hsr.2.1
  have hl := (he.mem_iff key vv).mp (mem_append_right _ mem_cons_self)
  apply (store.scan_enumerates ns startKey key).sorted.eq_of_mem_iff hsr.1
  rintro ⟨k, v⟩
  rw [(store.scan_enumerates ns startKey key).mem_iff]
  constructor
  · rintro ⟨⟨hst, hen⟩, hdb⟩
    have hlt : k < key := hen.resolve_left hk
    have hrn : InRange startKey endKey k := by
      refine ⟨hst, ?_⟩
      rcases hl.1.2 with hnil | hb
      · exact .inl hnil
      · exact .inr (IsTrans.trans _ _ _ hlt hb)
    rcases mem_append.mp ((he.mem_iff k v).mpr ⟨hrn, hdb⟩) with hpr | hr
    · exact hpr
    · rcases mem_cons.mp hr with heq | ha
      · cases heq
        exact absurd hlt (Std.Irrefl.irrefl _)
      · exact absurd (IsTrans.trans _ _ _ hlt (hp.1 _ ha)) (Std.Irrefl.irrefl _)
  · intro hpr
    obtain ⟨hrn, hdb⟩ := (he.mem_iff k v).mp (mem_append_left _ hpr)
    exact ⟨⟨hrn.1, .inr (hsr.2.2 _ hpr _ mem_cons_self)⟩, hdb⟩

theorem take_results (hn : n ≤ (q.results store).length) :
    (q.results store).take n = (store.getStateRangeScan q.ns q.startKey q.endKey).take n := by
  rw [RangeQuery.results] at hn ⊢
  split
  · next hp =>
      rw [if_pos hp, length_take] at hn
      rw [take_take, Nat.min_eq_left (by omega)]
  · rfl

theorem exists_last_result (hpos : n ≠ 0) (hn : n ≤ (q.results store).length) :
    ∃ pre key vv post, (q.results store).take n = pre ++ [(key, vv)] ∧
      store.getStateRangeScan q.ns q.startKey q.endKey = pre ++ (key, vv) :: post := by
  have hne : (q.results store).take n ≠ [] := by
    rw [← length_pos_iff, length_take]
    omega
  obtain ⟨pre, ⟨key, vv⟩, hp⟩ := (eq_nil_or_concat' _).resolve_left hne
  refine ⟨pre, key, vv, (store.getStateRangeScan q.ns q.startKey q.endKey).drop n, hp, ?_⟩
  rw [append_cons, ← hp, take_results hn, take_append_drop]

theorem validateRangeQuery_never_advanced :
    validateRangeQuery hashFunc serializeKVReads store newPubAndHashUpdates q.ns
        (rangeQueryInfoAfter hashFunc serializeKVReads store q 0) = .ok true ↔
      ∀ key, store.db (encodeDataKey q.ns key) ≠ none → key ≠ [] ∧ key < q.startKey := by
  have he : validateRangeQuery hashFunc serializeKVReads store newPubAndHashUpdates q.ns
      (rangeQueryInfoAfter hashFunc serializeKVReads store q 0) = .ok true ↔
        store.getStateRangeScan q.ns q.startKey [] = [] ∧ store.db (encodeDataKey q.ns []) = none := by
    change validateResults [] ((combinedIterator store newPubAndHashUpdates q.ns q.startKey [] true).map fun e =>
      (e.1, e.2.version)) = .ok true ↔ _
    rw [validateResults, Outcome.ok.injEq, decide_eq_true_iff, map_eq_nil_iff, combinedIterator_newPubAndHashUpdates,
      append_eq_nil_iff, if_pos rfl, toList_eq_nil_iff, map_eq_none_iff]
  rw [he]
  have hen := store.scan_enumerates q.ns q.startKey []
  constructor
  · rintro ⟨hsc, hnil⟩ key hk
    refine ⟨?_, ?_⟩
    · rintro rfl
      exact hk hnil
    · by_contra hst
      obtain ⟨vv, hvv⟩ := ne_none_iff_exists'.mp hk
      have hm := (hen.mem_iff key vv).mpr ⟨⟨hst, .inl rfl⟩, hvv⟩
      rw [hsc] at hm
      cases hm
  · intro h
    refine ⟨?_, ?_⟩
    · rw [eq_nil_iff_forall_not_mem]
      rintro ⟨key, vv⟩ hm
      obtain ⟨hrn, hdb⟩ := (hen.mem_iff key vv).mp hm
      exact hrn.1 (h key (by rw [hdb]; exact some_ne_none vv)).2
    · by_contra hsm
      exact (h [] hsm).1 rfl

section

-- The results of a scan, and one more, can be counted.
variable (hsize : ∀ ns startKey endKey, (store.getStateRangeScan ns startKey endKey).length + 1 < UInt64.size)
include hsize

theorem validateRangeQuery_advanced (hpos : n ≠ 0) (hn : n ≤ (q.results store).length) :
    validateRangeQuery hashFunc serializeKVReads store newPubAndHashUpdates q.ns
        (rangeQueryInfoAfter hashFunc serializeKVReads store q n) = .ok true ↔
      ((q.results store).take n).getLast?.map Prod.fst ≠ some [] := by
  obtain ⟨pre, key, vv, post, ht, hsca⟩ := exists_last_result hpos hn
  have hen := store.scan_enumerates q.ns q.startKey q.endKey
  obtain ⟨hrn, hdb⟩ := (hen.mem_iff key vv).mp (by simp [hsca])
  have hp : (pre ++ [(key, vv)]).length ≤ (store.getStateRangeScan q.ns q.startKey q.endKey).length := by simp [hsca]
  have hb := hsize q.ns q.startKey q.endKey
  rw [rangeQueryInfoAfter, next_iterate_of_le hashFunc serializeKVReads store q hn, ht, getLast?_concat]
  change compareResults hashFunc serializeKVReads
      (recordedReads hashFunc serializeKVReads maxDegreeQueryReadsHashing ((pre ++ [(key, vv)]).map asRead))
      ((combinedIterator store newPubAndHashUpdates q.ns q.startKey key true).map asRead) = .ok true ↔ some key ≠ some []
  have hb' := hsize q.ns q.startKey key
  rw [combinedIterator_newPubAndHashUpdates, if_pos rfl, hdb, map_some, toList_some,
    compareResults_recordedReads_iff (by decide) (by rw [length_map]; omega)
      (by rw [length_map, length_append]; omega)]
  by_cases hk : key = []
  · -- The empty key stands for no end: the scan has it, and it is served once more.
    subst hk
    refine iff_of_false ?_ (not_not.mpr rfl)
    have hnil : pre = [] := by
      rw [hsca] at hen
      rw [eq_nil_iff_forall_not_mem]
      intro e he
      exact List.not_lt_nil _ ((pairwise_append.mp hen.sorted).2.2 e he _ mem_cons_self)
    rw [hnil, recordedReads_eq_iff_of_le (by simp [maxDegreeQueryReadsHashing])]
    intro heq
    have hln := congrArg List.length heq
    have hsc := length_pos_of_mem (((store.scan_enumerates q.ns q.startKey []).mem_iff [] vv).mpr ⟨⟨hrn.1, .inl rfl⟩, hdb⟩)
    simp only [length_map, length_append, length_singleton, nil_append] at hln
    omega
  · rw [getStateRangeScan_upTo hsca hk]
    refine iff_of_true rfl ?_
    rw [Ne, Option.some.injEq]
    exact hk

theorem validateRangeQuery_exhausted (hn : (q.results store).length < n) :
    validateRangeQuery hashFunc serializeKVReads store newPubAndHashUpdates q.ns
        (rangeQueryInfoAfter hashFunc serializeKVReads store q n) = .ok true ↔
      recordedReads hashFunc serializeKVReads maxDegreeQueryReadsHashing ((q.results store).map asRead) =
        recordedReads hashFunc serializeKVReads maxDegreeQueryReadsHashing
          ((store.getStateRangeScan q.ns q.startKey q.endKey).map asRead) := by
  have hb := hsize q.ns q.startKey q.endKey
  have hrs : (q.results store).length ≤ (store.getStateRangeScan q.ns q.startKey q.endKey).length := by
    rw [RangeQuery.results]
    split
    · rw [length_take]
      omega
    · exact Nat.le_refl _
  rw [rangeQueryInfoAfter, next_iterate_of_gt hashFunc serializeKVReads store q hn]
  change compareResults hashFunc serializeKVReads
      (recordedReads hashFunc serializeKVReads maxDegreeQueryReadsHashing ((q.results store).map asRead))
      ((combinedIterator store newPubAndHashUpdates q.ns q.startKey q.endKey false).map asRead) = .ok true ↔ _
  rw [combinedIterator_newPubAndHashUpdates, if_neg Bool.false_ne_true, append_nil]
  exact compareResults_recordedReads_iff (by decide) (by rw [length_map]; omega) (by rw [length_map]; omega)

/-- On the same state, an iterator is validated if and only if its use is safe. -/
theorem validateRangeQuery_after_iff (n : Nat) :
    validateRangeQuery hashFunc serializeKVReads store newPubAndHashUpdates q.ns
        (rangeQueryInfoAfter hashFunc serializeKVReads store q n) = .ok true ↔
      IteratorSafe hashFunc serializeKVReads store q n := by
  rw [IteratorSafe]
  by_cases hpos : n = 0
  · rw [hpos]
    exact validateRangeQuery_never_advanced
  · rw [if_neg hpos]
    split_ifs with hn
    · exact validateRangeQuery_advanced hsize hpos hn
    · exact validateRangeQuery_exhausted hsize (Nat.not_le.mp hn)

end

end

end Drunix.Ledger.Simulation
