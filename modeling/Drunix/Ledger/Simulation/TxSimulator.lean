import Drunix.Ledger.Simulation.RangeIterator
import Drunix.Ledger.Simulation.RWSetBuilder
import Drunix.Ledger.Validation.PvtBatch

namespace Drunix.Ledger.Simulation

open Lib Proto Vanilla Validation List

/-- The calls of a chaincode on the simulator. A deletion sets no value; queries on private data are not
recorded. -/
inductive Operation where
  | getState (ns key : Bytes)
  | getStateMetadata (ns key : Bytes)
  | getStateMultipleKeys (ns : Bytes) (keys : List Bytes)
  | setState (ns key value : Bytes)
  | setStateMetadata (ns key : Bytes) (metadata : AMap Bytes Bytes)
  | getPrivateData (ns coll key : Bytes)
  | getPrivateDataHash (ns coll key : Bytes)
  | getPrivateDataMetadata (ns coll key : Bytes)
  | getPrivateDataMultipleKeys (ns coll : Bytes) (keys : List Bytes)
  | setPrivateData (ns coll key value : Bytes)
  | purgePrivateData (ns coll key : Bytes)
  | setPrivateDataMetadata (ns coll key : Bytes) (metadata : AMap Bytes Bytes)
  | pvtdataQuery
  | getStateRangeScanIterator (ns startKey endKey : Bytes)
  | getStateRangeScanIteratorWithPagination (ns startKey endKey : Bytes) (pageSize : Int)
  | next (i : Nat)

structure Answers where
  validateCollName : Bool := true
  db : Bool := true
  validateKeyValue : Bool := true

/-- `txSimulator`. An iterator is given by its query and how often `Next` was called on it: the state does not
change during the simulation. -/
structure TxSimulator where
  rwsetBuilder : RWSetBuilder := ∅
  itrs : List (RangeQuery × Nat) := []
  writePerformed : Bool := false
  pvtdataQueriesPerformed : Bool := false
  paginatedQueriesPerformed : Bool := false

namespace TxSimulator

variable (sha256 : Bytes → Bytes)

def addReads (b : RWSetBuilder) (reads : List ((Bytes × Bytes) × Option Version)) : RWSetBuilder :=
  reads.foldl (fun b r => b.addToReadSet r.1.1 r.1.2 r.2) b

def addHashedReads (b : RWSetBuilder) (reads : List ((Bytes × Bytes × Bytes) × Option Version)) : RWSetBuilder :=
  reads.foldl (fun b r => b.addToHashedReadSet sha256 r.1.1 r.1.2.1 r.1.2.2 r.2) b

def write (a : Answers) (sim : TxSimulator) (f : RWSetBuilder → RWSetBuilder) : TxSimulator :=
  if sim.pvtdataQueriesPerformed || sim.paginatedQueriesPerformed then sim
  else { sim with writePerformed := true, rwsetBuilder := if a.validateKeyValue then f sim.rwsetBuilder else sim.rwsetBuilder }

def writePrivate (a : Answers) (sim : TxSimulator) (f : RWSetBuilder → RWSetBuilder) : TxSimulator :=
  if a.validateCollName then sim.write a f else sim

def openIterator (a : Answers) (sim : TxSimulator) (q : RangeQuery) : TxSimulator :=
  if a.db then { sim with itrs := sim.itrs ++ [(q, 0)] } else sim

end TxSimulator

section

variable (sha256 : Bytes → Bytes) (store : StateStore)

def Operation.reads (a : Answers) : Operation → List ((Bytes × Bytes) × Option Version)
  | .getState ns key => if a.db then [((ns, key), getVersion store.db ns key)] else []
  | .getStateMetadata ns key => if a.db then [((ns, key), getVersion store.db ns key)] else []
  | .getStateMultipleKeys ns keys => if a.db then keys.map fun key => ((ns, key), getVersion store.db ns key) else []
  | _ => []

/-- The reads of private data that an operation records. `GetPrivateData` compares the version of the value with
that of its hash; `GetPrivateDataMultipleKeys` takes it as it is. -/
def Operation.hashedReads (a : Answers) : Operation → List ((Bytes × Bytes × Bytes) × Option Version)
  | .getPrivateData ns coll key =>
    if a.validateCollName && a.db &&
        getKeyHashVersion store.db ns coll (sha256 key) = getVersion store.db (derivePvtDataNs ns coll) key then
      [((ns, coll, key), getVersion store.db (derivePvtDataNs ns coll) key)]
    else []
  | .getPrivateDataHash ns coll key =>
    if a.validateCollName && a.db then [((ns, coll, key), getKeyHashVersion store.db ns coll (sha256 key))] else []
  | .getPrivateDataMetadata ns coll key =>
    if a.validateCollName && a.db then [((ns, coll, key), getKeyHashVersion store.db ns coll (sha256 key))] else []
  | .getPrivateDataMultipleKeys ns coll keys =>
    if a.validateCollName && a.db then
      keys.map fun key => ((ns, coll, key), getVersion store.db (derivePvtDataNs ns coll) key)
    else []
  | _ => []

end

namespace TxSimulator

section

variable (sha256 : Bytes → Bytes) (store : StateStore)

def step (sim : TxSimulator) (c : Answers × Operation) : TxSimulator :=
  match c.2 with
  | .getState .. | .getStateMetadata .. | .getStateMultipleKeys .. =>
    { sim with rwsetBuilder := addReads sim.rwsetBuilder (c.2.reads store c.1) }
  | .getPrivateData .. | .getPrivateDataHash .. | .getPrivateDataMetadata .. | .getPrivateDataMultipleKeys .. =>
    { sim with rwsetBuilder := addHashedReads sha256 sim.rwsetBuilder (c.2.hashedReads sha256 store c.1) }
  | .setState ns key value => sim.write c.1 fun b => b.addToWriteSet ns key value
  | .setStateMetadata ns key metadata => sim.write c.1 fun b => b.addToMetadataWriteSet ns key metadata
  | .setPrivateData ns coll key value => sim.writePrivate c.1 fun b => b.addToPvtAndHashedWriteSet sha256 ns coll key value
  | .purgePrivateData ns coll key => sim.writePrivate c.1 fun b => b.addToPvtAndHashedWriteSetForPurge sha256 ns coll key
  | .setPrivateDataMetadata ns coll key metadata =>
    sim.writePrivate c.1 fun b => b.addToHashedMetadataWriteSet sha256 ns coll key metadata
  | .pvtdataQuery => if sim.writePerformed then sim else { sim with pvtdataQueriesPerformed := true }
  | .getStateRangeScanIterator ns startKey endKey => sim.openIterator c.1 ⟨ns, startKey, endKey, 0⟩
  | .getStateRangeScanIteratorWithPagination ns startKey endKey pageSize =>
    if sim.writePerformed then sim
    else { sim with paginatedQueriesPerformed := true }.openIterator c.1 ⟨ns, startKey, endKey, pageSize⟩
  | .next i => if c.1.db then { sim with itrs := sim.itrs.modify i fun x => (x.1, x.2 + 1) } else sim

def run (calls : List (Answers × Operation)) : TxSimulator :=
  calls.foldl (step sha256 store) {}

end

section

variable (hashFunc : Bytes → Bytes) (serializeKVReads : List KVRead → Bytes) (store : StateStore)

def addRangeQueryInfo (b : RWSetBuilder) (itrs : List (RangeQuery × Nat)) : RWSetBuilder :=
  itrs.foldl (fun b x => b.addToRangeQuerySet x.1.ns (rangeQueryInfoAfter hashFunc serializeKVReads store x.1 x.2)) b

def getTxSimulationResults (sim : TxSimulator) : TxRwSet :=
  (addRangeQueryInfo hashFunc serializeKVReads store sim.rwsetBuilder sim.itrs).getTxReadWriteSet

/-- The iterators whose range queries are recorded: the first ones of a namespace with their start key, end key
and exhaustion. -/
def FirstIterator (itrs : List (RangeQuery × Nat)) (x : RangeQuery × Nat) : Prop :=
  ∃ pre post, itrs = pre ++ x :: post ∧ ∀ y ∈ pre, y.1.ns = x.1.ns →
    rangeQueryKey (rangeQueryInfoAfter hashFunc serializeKVReads store y.1 y.2) ≠
      rangeQueryKey (rangeQueryInfoAfter hashFunc serializeKVReads store x.1 x.2)

def PrivateReadsSafe (sha256 : Bytes → Bytes) (calls : List (Answers × Operation)) : Prop :=
  ∀ pre r post, calls.flatMap (fun c => c.2.hashedReads sha256 store c.1) = pre ++ r :: post →
    (∀ r' ∈ post, r'.1 ≠ r.1) → r.2 = getKeyHashVersion store.db r.1.1 r.1.2.1 (sha256 r.1.2.2)

end

section

variable {sha256 : Bytes → Bytes} {store : StateStore} {b : RWSetBuilder}

section

variable {a : Answers} {sim : TxSimulator} {f : RWSetBuilder → RWSetBuilder} (hf : ∀ b, (f b).recorded = b.recorded)
include hf

theorem recorded_write : (sim.write a f).rwsetBuilder.recorded = sim.rwsetBuilder.recorded := by
  rw [write]
  split
  · rfl
  · split
    · exact hf _
    · rfl

theorem recorded_writePrivate : (sim.writePrivate a f).rwsetBuilder.recorded = sim.rwsetBuilder.recorded := by
  rw [writePrivate]
  split
  · exact recorded_write hf
  · rfl

end

theorem rwsetBuilder_openIterator (a : Answers) (sim : TxSimulator) (q : RangeQuery) :
    (sim.openIterator a q).rwsetBuilder = sim.rwsetBuilder := by
  rw [openIterator]
  split <;> rfl

theorem recorded_step (sim : TxSimulator) (c : Answers × Operation) :
    (sim.step sha256 store c).rwsetBuilder.recorded =
      (addHashedReads sha256 (addReads sim.rwsetBuilder (c.2.reads store c.1)) (c.2.hashedReads sha256 store c.1)).recorded := by
  obtain ⟨a, op⟩ := c
  cases op with
  | getState ns key => rfl
  | getStateMetadata ns key => rfl
  | getStateMultipleKeys ns keys => rfl
  | setState ns key value =>
    have hw : (sim.write a fun b => b.addToWriteSet ns key value).rwsetBuilder.recorded = sim.rwsetBuilder.recorded :=
      recorded_write fun b => b.recorded_addToWriteSet ns key value
    exact hw
  | setStateMetadata ns key metadata =>
    have hw : (sim.write a fun b => b.addToMetadataWriteSet ns key metadata).rwsetBuilder.recorded =
        sim.rwsetBuilder.recorded := recorded_write fun b => b.recorded_updateNs_of_eq (fun _ => rfl) (fun _ => rfl) fun _ => rfl
    exact hw
  | getPrivateData ns coll key => rfl
  | getPrivateDataHash ns coll key => rfl
  | getPrivateDataMetadata ns coll key => rfl
  | getPrivateDataMultipleKeys ns coll keys => rfl
  | setPrivateData ns coll key value =>
    exact recorded_writePrivate fun b => b.recorded_addToHashedWriteSet sha256 false ns coll key value
  | purgePrivateData ns coll key =>
    exact recorded_writePrivate fun b => b.recorded_addToHashedWriteSet sha256 true ns coll key []
  | setPrivateDataMetadata ns coll key metadata =>
    exact recorded_writePrivate fun b => b.recorded_updateColl_of_eq fun _ => rfl
  | pvtdataQuery =>
    simp only [step]
    split <;> rfl
  | getStateRangeScanIterator ns startKey endKey =>
    simp only [step, rwsetBuilder_openIterator]
    rfl
  | getStateRangeScanIteratorWithPagination ns startKey endKey pageSize =>
    simp only [step]
    split
    · rfl
    · rw [rwsetBuilder_openIterator]
      rfl
  | next i =>
    simp only [step]
    split <;> rfl

theorem recorded_addReads (b : RWSetBuilder) (reads : List ((Bytes × Bytes) × Option Version)) :
    (addReads b reads).recorded.hashedRead = b.recorded.hashedRead ∧ (addReads b reads).recorded.ranges = b.recorded.ranges := by
  induction reads generalizing b with
  | nil => exact ⟨rfl, rfl⟩
  | cons r reads ih =>
    have hst := ih (b.addToReadSet r.1.1 r.1.2 r.2)
    rw [RWSetBuilder.recorded_addToReadSet] at hst
    exact hst

theorem recorded_addHashedReads (b : RWSetBuilder) (reads : List ((Bytes × Bytes × Bytes) × Option Version)) :
    (addHashedReads sha256 b reads).recorded.read = b.recorded.read ∧
      (addHashedReads sha256 b reads).recorded.ranges = b.recorded.ranges := by
  induction reads generalizing b with
  | nil => exact ⟨rfl, rfl⟩
  | cons r reads ih =>
    have hst := ih (b.addToHashedReadSet sha256 r.1.1 r.1.2.1 r.1.2.2 r.2)
    rw [RWSetBuilder.recorded_addToHashedReadSet] at hst
    exact hst

def ReadsCurrent (store : StateStore) (b : RWSetBuilder) : Prop :=
  ∀ ns key r, b.recorded.read ns key = some r → r = ⟨key, getVersion store.db ns key⟩

theorem readsCurrent_addReads {reads : List ((Bytes × Bytes) × Option Version)}
    (hrd : ∀ r ∈ reads, r.2 = getVersion store.db r.1.1 r.1.2) (h : ReadsCurrent store b) :
    ReadsCurrent store (addReads b reads) := by
  induction reads generalizing b with
  | nil => exact h
  | cons r reads ih =>
    rw [forall_mem_cons] at hrd
    apply ih hrd.2
    intro ns key read hr
    rw [RWSetBuilder.recorded_addToReadSet] at hr
    simp only at hr
    split at hr
    · next heq =>
        cases hr
        rw [heq.1, heq.2, hrd.1]
    · exact h ns key read hr

theorem version_of_mem_reads {a : Answers} {op : Operation} :
    ∀ r ∈ op.reads store a, r.2 = getVersion store.db r.1.1 r.1.2 := by
  intro r hr
  cases op with
  | getState ns key | getStateMetadata ns key =>
    simp only [Operation.reads] at hr
    split at hr
    · obtain rfl := mem_singleton.mp hr
      rfl
    · cases hr
  | getStateMultipleKeys ns keys =>
    simp only [Operation.reads] at hr
    split at hr
    · obtain ⟨key, _, rfl⟩ := mem_map.mp hr
      rfl
    · cases hr
  | _ => cases hr

theorem hashedRead_addHashedReads {ns coll key : Bytes} (hb : b.recorded.hashedRead ns coll key = none)
    (reads : List ((Bytes × Bytes × Bytes) × Option Version)) :
    (addHashedReads sha256 b reads).recorded.hashedRead ns coll key =
      (reads.reverse.lookup (ns, coll, key)).map fun version => ⟨sha256 key, version⟩ := by
  induction reads using List.reverseRecOn with
  | nil => exact hb
  | append_singleton reads r ih =>
    obtain ⟨k, version⟩ := r
    rw [addHashedReads, foldl_concat, ← addHashedReads, RWSetBuilder.recorded_addToHashedReadSet, reverse_concat,
      lookup_cons]
    by_cases hk : (ns, coll, key) = k
    · subst hk
      simp
    · have hk' : ((ns, coll, key) == k) = false := beq_false_of_ne hk
      rw [hk', ← ih]
      exact if_neg hk

theorem hashedRead_addHashedReads_congr {b' : RWSetBuilder} (h : b.recorded.hashedRead = b'.recorded.hashedRead)
    (reads : List ((Bytes × Bytes × Bytes) × Option Version)) :
    (addHashedReads sha256 b reads).recorded.hashedRead = (addHashedReads sha256 b' reads).recorded.hashedRead := by
  induction reads generalizing b b' with
  | nil => exact h
  | cons r reads ih =>
    apply ih
    rw [RWSetBuilder.recorded_addToHashedReadSet, RWSetBuilder.recorded_addToHashedReadSet, h]

theorem recorded_run (calls : List (Answers × Operation)) :
    ReadsCurrent store (run sha256 store calls).rwsetBuilder ∧
      (run sha256 store calls).rwsetBuilder.recorded.hashedRead =
        (addHashedReads sha256 ∅ (calls.flatMap fun c => c.2.hashedReads sha256 store c.1)).recorded.hashedRead ∧
      (run sha256 store calls).rwsetBuilder.recorded.ranges = fun _ => [] := by
  induction calls using List.reverseRecOn with
  | nil =>
    refine ⟨?_, rfl, rfl⟩
    intro ns key r hr
    cases hr
  | append_singleton calls c ih =>
    obtain ⟨hrd, hh, hrn⟩ := ih
    have hru : run sha256 store (calls ++ [c]) = (run sha256 store calls).step sha256 store c := by
      rw [run, foldl_append]
      rfl
    have hst := @recorded_step sha256 store (run sha256 store calls) c
    rw [hru]
    refine ⟨?_, ?_, ?_⟩
    · intro ns key r hr
      rw [hst, (recorded_addHashedReads _ _).1] at hr
      exact readsCurrent_addReads version_of_mem_reads hrd ns key r hr
    · have hbf := ((recorded_addReads (run sha256 store calls).rwsetBuilder (c.2.reads store c.1)).1).trans hh
      rw [hst, hashedRead_addHashedReads_congr hbf, flatMap_append, flatMap_singleton, addHashedReads,
        addHashedReads, addHashedReads, foldl_append]
    · rw [hst, (recorded_addHashedReads _ _).2, (recorded_addReads _ _).2, hrn]

end

section

variable {hashFunc : Bytes → Bytes} {serializeKVReads : List KVRead → Bytes} {store : StateStore} {rqi : RangeQueryInfo}

theorem firstIterator_concat {itrs : List (RangeQuery × Nat)} {x z : RangeQuery × Nat} :
    FirstIterator hashFunc serializeKVReads store (itrs ++ [z]) x ↔
      FirstIterator hashFunc serializeKVReads store itrs x ∨
        x = z ∧ ∀ y ∈ itrs, y.1.ns = z.1.ns →
          rangeQueryKey (rangeQueryInfoAfter hashFunc serializeKVReads store y.1 y.2) ≠
            rangeQueryKey (rangeQueryInfoAfter hashFunc serializeKVReads store z.1 z.2) := by
  constructor
  · rintro ⟨pre, post, hsp, hfr⟩
    obtain ⟨rfl, rfl, rfl⟩ | ⟨post', rfl, hi⟩ := append_cons_of_concat hsp
    · exact .inr ⟨rfl, hfr⟩
    · exact .inl ⟨pre, post', hi, hfr⟩
  · rintro (⟨pre, post, rfl, hfr⟩ | ⟨rfl, hfr⟩)
    · exact ⟨pre, post ++ [z], by simp, hfr⟩
    · exact ⟨itrs, [], rfl, hfr⟩

section

variable (b : RWSetBuilder) (itrs : List (RangeQuery × Nat))
include b itrs

theorem addRangeQueryInfo_concat (z : RangeQuery × Nat) :
    addRangeQueryInfo hashFunc serializeKVReads store b (itrs ++ [z]) =
      (addRangeQueryInfo hashFunc serializeKVReads store b itrs).addToRangeQuerySet z.1.ns
        (rangeQueryInfoAfter hashFunc serializeKVReads store z.1 z.2) := by
  rw [addRangeQueryInfo, foldl_append]
  rfl

theorem reads_addRangeQueryInfo :
    (addRangeQueryInfo hashFunc serializeKVReads store b itrs).recorded.read = b.recorded.read ∧
      (addRangeQueryInfo hashFunc serializeKVReads store b itrs).recorded.hashedRead = b.recorded.hashedRead := by
  induction itrs using List.reverseRecOn with
  | nil => exact ⟨rfl, rfl⟩
  | append_singleton itrs z ih =>
    rw [addRangeQueryInfo_concat, RWSetBuilder.recorded_addToRangeQuerySet]
    exact ih

end

theorem mem_keys_addRangeQuery {rangeQueries : List RangeQueryInfo} {k : Bytes × Bytes × Bool} :
    k ∈ (addRangeQuery rangeQueries rqi).map rangeQueryKey ↔ k ∈ rangeQueries.map rangeQueryKey ∨ k = rangeQueryKey rqi := by
  rw [addRangeQuery]
  split
  · next hm =>
      constructor
      · exact .inl
      · rintro (h | rfl)
        · exact h
        · exact hm
  · rw [map_append, mem_append, map_singleton, mem_singleton]

section

variable {b : RWSetBuilder} (hb : b.recorded.ranges = fun _ => []) {itrs : List (RangeQuery × Nat)} {ns : Bytes}
include hb

theorem mem_keys_addRangeQueryInfo {k : Bytes × Bytes × Bool} :
    k ∈ ((addRangeQueryInfo hashFunc serializeKVReads store b itrs).recorded.ranges ns).map rangeQueryKey ↔
      ∃ y ∈ itrs, y.1.ns = ns ∧ k = rangeQueryKey (rangeQueryInfoAfter hashFunc serializeKVReads store y.1 y.2) := by
  induction itrs using List.reverseRecOn with
  | nil =>
    rw [addRangeQueryInfo, foldl_nil, hb]
    simp
  | append_singleton itrs z ih =>
    rw [addRangeQueryInfo_concat, RWSetBuilder.recorded_addToRangeQuerySet]
    simp only
    split_ifs with hns
    · rw [mem_keys_addRangeQuery, ih]
      simp [or_and_right, exists_or, hns]
    · rw [ih]
      simp [or_and_right, exists_or, Ne.symm hns]

theorem mem_ranges_addRangeQueryInfo :
    rqi ∈ (addRangeQueryInfo hashFunc serializeKVReads store b itrs).recorded.ranges ns ↔
      ∃ x, FirstIterator hashFunc serializeKVReads store itrs x ∧ x.1.ns = ns ∧
        rqi = rangeQueryInfoAfter hashFunc serializeKVReads store x.1 x.2 := by
  induction itrs using List.reverseRecOn with
  | nil =>
    rw [addRangeQueryInfo, foldl_nil, hb]
    constructor
    · intro h
      cases h
    · rintro ⟨x, ⟨pre, post, hsp, _⟩, _⟩
      simp at hsp
  | append_singleton itrs z ih =>
    have hk := fun k => @mem_keys_addRangeQueryInfo hashFunc serializeKVReads store b hb itrs z.1.ns k
    rw [addRangeQueryInfo_concat, RWSetBuilder.recorded_addToRangeQuerySet]
    -- The last iterator is recorded when no key of its namespace is its own.
    have hfr : rangeQueryKey (rangeQueryInfoAfter hashFunc serializeKVReads store z.1 z.2) ∉
          ((addRangeQueryInfo hashFunc serializeKVReads store b itrs).recorded.ranges z.1.ns).map rangeQueryKey ↔
        ∀ y ∈ itrs, y.1.ns = z.1.ns →
          rangeQueryKey (rangeQueryInfoAfter hashFunc serializeKVReads store y.1 y.2) ≠
            rangeQueryKey (rangeQueryInfoAfter hashFunc serializeKVReads store z.1 z.2) := by
      rw [hk]
      constructor
      · intro h y hy hyn heq
        exact h ⟨y, hy, hyn, heq.symm⟩
      · rintro h ⟨y, hy, hyn, heq⟩
        exact h y hy hyn heq.symm
    simp only [firstIterator_concat, or_and_right, exists_or, and_assoc, exists_eq_left, ← ih, ← hfr]
    by_cases hns : ns = z.1.ns
    · subst hns
      rw [if_pos rfl, addRangeQuery]
      split
      · next hm => simp [hm]
      · next hm => simp [hm]
    · simp [hns, Ne.symm hns]

end

theorem hashedReads_valid_iff {sha256 : Bytes → Bytes} {calls : List (Answers × Operation)} :
    (∀ ns coll key r, (run sha256 store calls).rwsetBuilder.recorded.hashedRead ns coll key = some r →
        validateKVReadHash store.db newPubAndHashUpdates ns coll r = true) ↔ PrivateReadsSafe store sha256 calls := by
  have hvl : ∀ ns coll r, validateKVReadHash store.db newPubAndHashUpdates ns coll r = true ↔
      getKeyHashVersion store.db ns coll r.keyHash = r.version := by
    intro ns coll r
    exact decide_eq_true_iff
  simp only [(recorded_run calls).2.1, hvl]
  -- the first entry of the reversed list is the last read of the key
  constructor
  · rintro h pre ⟨⟨ns, coll, key⟩, version⟩ post hsp hl
    refine (h ns coll key ⟨sha256 key, version⟩ ?_).symm
    rw [hashedRead_addHashedReads rfl, Option.map_eq_some_iff]
    refine ⟨version, lookup_eq_some_iff.mpr ⟨post.reverse, pre.reverse, by simp [hsp], fun r hr => ?_⟩, rfl⟩
    exact bne_iff_ne.mpr (Ne.symm (hl r (mem_reverse.mp hr)))
  · intro h ns coll key r hr
    rw [hashedRead_addHashedReads rfl, Option.map_eq_some_iff] at hr
    obtain ⟨version, hl, rfl⟩ := hr
    obtain ⟨post, pre, hsp, hp⟩ := lookup_eq_some_iff.mp hl
    refine (h pre.reverse ((ns, coll, key), version) post.reverse ?_ fun r hr heq => ?_).symm
    · simpa using congrArg reverse hsp
    exact bne_iff_ne.mp (hp r (mem_reverse.mp hr)) heq.symm

end

/-- A simulated transaction that is validated alone on the state it was simulated on is valid if and only if
its recorded iterators and its last private reads are safe. -/
theorem simulated_tx_valid_iff (hashFunc : Bytes → Bytes) (serializeKVReads : List KVRead → Bytes) (sha256 : Bytes → Bytes)
    (store : StateStore)
    (hsize : ∀ ns startKey endKey, (store.getStateRangeScan ns startKey endKey).length + 1 < UInt64.size)
    (calls : List (Answers × Operation)) (indexInBlock : Nat) :
    mvccCode hashFunc serializeKVReads store true newPubAndHashUpdates
        ⟨indexInBlock, (run sha256 store calls).getTxSimulationResults hashFunc serializeKVReads store, .valid⟩ = .ok .valid ↔
      (∀ q n, FirstIterator hashFunc serializeKVReads store (run sha256 store calls).itrs (q, n) →
        IteratorSafe hashFunc serializeKVReads store q n) ∧ PrivateReadsSafe store sha256 calls := by
  obtain ⟨hc, _, hrn⟩ := @recorded_run sha256 store calls
  obtain ⟨hre, hh⟩ := @reads_addRangeQueryInfo hashFunc serializeKVReads store
    (run sha256 store calls).rwsetBuilder (run sha256 store calls).itrs
  rw [mvccCode, if_pos rfl, validateEndorserTX, if_pos rfl, getTxSimulationResults, validateTx_getTxReadWriteSet, hre, hh,
    hashedReads_valid_iff]
  have hrd : ∀ ns key r, (run sha256 store calls).rwsetBuilder.recorded.read ns key = some r →
      validateKVRead store.db newPubAndHashUpdates ns r = true := by
    intro ns key r hr
    rw [hc ns key r hr, validateKVRead]
    exact decide_eq_true rfl
  rw [and_iff_right hrd]
  refine and_congr ?_ Iff.rfl
  constructor
  · intro h q n hfr
    rw [← validateRangeQuery_after_iff hsize]
    exact h q.ns _ ((mem_ranges_addRangeQueryInfo hrn).mpr ⟨(q, n), hfr, rfl, rfl⟩)
  · intro h ns rqi hrq
    obtain ⟨⟨q, n⟩, hfr, rfl, rfl⟩ := (mem_ranges_addRangeQueryInfo hrn).mp hrq
    exact (validateRangeQuery_after_iff hsize n).mpr (h q n hfr)

def paymentStore : StateStore :=
  StateStore.empty.put (encodeDataKey (ascii "pay") (ascii "k")) ⟨some (ascii "v"), [], ⟨1, 0⟩⟩

theorem length_scan_paymentStore_le (ns startKey endKey : Bytes) :
    (paymentStore.getStateRangeScan ns startKey endKey).length ≤ 1 := by
  apply (length_filter_le _ _).trans
  change (unionRight [] _).length ≤ 1
  rw [unionRight]
  cases ((keyIn ns (encodeDataKey (ascii "pay") (ascii "k"))).filter fun key => InRange startKey endKey key) <;> simp

theorem scan_paymentStore : paymentStore.getStateRangeScan (ascii "pay") [] [] = [(ascii "k", ⟨some (ascii "v"), [], ⟨1, 0⟩⟩)] := by
  change (unionRight [] _).filter _ = _
  rw [unionRight]
  decide

def readToTheEnd : List (Answers × Operation) :=
  [({}, .getState (ascii "pay") (ascii "k")), ({}, .getStateRangeScanIterator (ascii "pay") [] []), ({}, .next 0), ({}, .next 0)]

theorem simulated_tx_valid_payments :
    mvccCode id (fun reads => reads.flatMap KVRead.key) paymentStore true newPubAndHashUpdates
      ⟨0, (run id paymentStore readToTheEnd).getTxSimulationResults id (fun reads => reads.flatMap KVRead.key) paymentStore,
        .valid⟩ = .ok .valid := by
  refine (simulated_tx_valid_iff id (fun reads => reads.flatMap KVRead.key) id paymentStore ?_ readToTheEnd 0).mpr ⟨?_, ?_⟩
  · intro ns startKey endKey
    have hle := length_scan_paymentStore_le ns startKey endKey
    have hsz : 2 < UInt64.size := by decide
    omega
  · rintro q n ⟨pre, post, hsp, _⟩
    have hm : (q, n) ∈ [((⟨ascii "pay", [], [], 0⟩ : RangeQuery), 2)] := by
      change (q, n) ∈ (run id paymentStore readToTheEnd).itrs
      rw [hsp]
      exact mem_append_right _ mem_cons_self
    cases mem_singleton.mp hm
    have hrs : RangeQuery.results paymentStore ⟨ascii "pay", [], [], 0⟩ = paymentStore.getStateRangeScan (ascii "pay") [] [] :=
      rfl
    rw [IteratorSafe, if_neg (by decide), hrs, scan_paymentStore, if_neg (by decide)]
  · intro pre r post hsp
    have hn : readToTheEnd.flatMap (fun c => c.2.hashedReads id paymentStore c.1) = [] := rfl
    rw [hn] at hsp
    simp at hsp

/-- An iterator that was opened and never advanced is recorded as a scan without an end that returned nothing. -/
theorem opened_iterator_is_phantom :
    mvccCode id (fun reads => reads.flatMap KVRead.key) paymentStore true newPubAndHashUpdates
      ⟨0, (run id paymentStore [({}, .getStateRangeScanIterator (ascii "pay") (ascii "a") (ascii "b"))]).getTxSimulationResults
        id (fun reads => reads.flatMap KVRead.key) paymentStore, .valid⟩ = .ok .phantomReadConflict := by
  have hq : validateRangeQuery id (fun reads => reads.flatMap KVRead.key) paymentStore newPubAndHashUpdates (ascii "pay")
      ⟨ascii "a", [], false, .unset⟩ = .ok false := by
    have hsc : paymentStore.getStateRangeScan (ascii "pay") (ascii "a") [] =
        [(ascii "k", ⟨some (ascii "v"), [], ⟨1, 0⟩⟩)] := by
      change (unionRight [] _).filter _ = _
      rw [unionRight]
      decide
    rw [validateRangeQuery, combinedIterator_newPubAndHashUpdates, hsc]
    rfl
  change (Outcome.all (validateRangeQuery id (fun reads => reads.flatMap KVRead.key) paymentStore newPubAndHashUpdates
    (ascii "pay")) [⟨ascii "a", [], false, .unset⟩] >>= fun noPhantoms => _) >>= _ = _
  rw [Outcome.all, hq]
  rfl

end TxSimulator

end Drunix.Ledger.Simulation
