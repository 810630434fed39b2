import Mathlib.Algebra.GroupWithZero.Nat
import Drunix.Ledger.Validation.WriteSets

namespace Drunix.Ledger.Validation

open Proto Vanilla

/-- What the operations of a transaction on a key amount to; a value without metadata keeps the metadata of the key. -/
inductive KeyMerge where
  | delete
  | put (value : Option Bytes) (metadata : Option Bytes)
  | putMetadata (metadata : Bytes)
  deriving DecidableEq

def KeyMerge.run (txHeight : Version) (old : Option VersionedValue) : KeyMerge → Option VersionedValue
  | delete => none
  | put value metadata => some ⟨value, metadata.getD ((old.map VersionedValue.metadata).getD []), txHeight⟩
  | putMetadata metadata => old.map fun vv => ⟨vv.value, metadata, txHeight⟩

def readFlags (ops : KeyOps) : KeyMerge :=
  if ops.isDelete then .delete
  else if ops.isUpsertAndMetadataUpdate then .put ops.value (some ops.metadata)
  else if ops.isOnlyUpsert then .put ops.value none
  else .putMetadata ops.metadata

def KeyOp.flagOf : KeyOp → Nat
  | .upsert _ => 1
  | .metadataUpdate _ => 2
  | .metadataDelete => 4
  | .delete => 8

def flagSum (l : List KeyOp) : Nat :=
  (l.map KeyOp.flagOf).sum

def lastWrite (l : List KeyOp) : Option (Option Bytes) :=
  (l.filterMap fun | .upsert value => some (some value) | .delete => some none | _ => none).getLast?

def lastMetadata (l : List KeyOp) : Option Bytes :=
  (l.filterMap fun | .metadataUpdate metadata => some metadata | .metadataDelete => some [] | _ => none).getLast?

def lastUpsert (l : List KeyOp) : Option Bytes :=
  (l.filterMap fun | .upsert value => some value | _ => none).getLast?

/-- Deletions of metadata leave what the last update has recorded. -/
def lastUpdate (l : List KeyOp) : Bytes :=
  ((l.filterMap fun | .metadataUpdate metadata => some metadata | _ => none).getLast?).getD []

def sequential (l : List KeyOp) : Option KeyMerge :=
  match lastWrite l, lastMetadata l with
  | some none, _ => some .delete
  | some (some value), metadata => some (.put (some value) metadata)
  | none, some metadata => some (.putMetadata metadata)
  | none, none => none

theorem foldl_apply_eq (l : List KeyOp) :
    l.foldl KeyOps.apply {} = ⟨UInt8.ofNat (flagSum l), lastUpsert l, lastUpdate l⟩ := by
  induction l using List.reverseRecOn with
  | nil => rfl
  | append_singleton l op ih =>
    rw [List.foldl_append, ih]
    cases op <;> simp [KeyOps.apply, flagSum, lastUpsert, lastUpdate, KeyOp.flagOf, UInt8.ofNat_add]

variable {l : List KeyOp}

theorem lastUpsert_of_lastWrite :
    (lastWrite l = none → lastUpsert l = none) ∧ ∀ value, lastWrite l = some (some value) → lastUpsert l = some value := by
  induction l using List.reverseRecOn with
  | nil => simp [lastWrite, lastUpsert]
  | append_singleton l op ih => cases op <;> simp_all [lastWrite, lastUpsert]

theorem sequential_eq_none : sequential l = none ↔ l = [] := by
  induction l using List.reverseRecOn with
  | nil => simp [sequential, lastWrite, lastMetadata]
  | append_singleton l op ih =>
    cases op <;> simp [sequential, lastWrite, lastMetadata]
    all_goals split <;> simp_all

section

variable (n : Nat) (value : Option Bytes) (metadata : Bytes)

theorem flags_iff : ((⟨UInt8.ofNat n, value, metadata⟩ : KeyOps).isDelete = true ↔ 8 ≤ n % 16) ∧
    ((⟨UInt8.ofNat n, value, metadata⟩ : KeyOps).isUpsertAndMetadataUpdate = true ↔ n % 2 = 1 ∧ 2 ≤ n % 8) ∧
    ((⟨UInt8.ofNat n, value, metadata⟩ : KeyOps).isOnlyUpsert = true ↔ n % 256 ≤ 1) := by
  have ha : ∀ m : Fin 256, (UInt8.ofNat m &&& 8 = 8 ↔ 8 ≤ m.val % 16) ∧
      ((UInt8.ofNat m &&& 1 = 1 ∧ (UInt8.ofNat m &&& 2 = 2 ∨ UInt8.ofNat m &&& 4 = 4)) ↔
        m.val % 2 = 1 ∧ 2 ≤ m.val % 8) ∧ (UInt8.ofNat m ||| 1 = 1 ↔ m.val ≤ 1) := by
    decide +kernel
  have hm : UInt8.ofNat n = UInt8.ofNat (n % 256) := UInt8.toNat_inj.mp (by simp)
  have hn := ha ⟨n % 256, Nat.mod_lt _ (by decide)⟩
  simp only [KeyOps.isDelete, KeyOps.isUpsertAndMetadataUpdate, KeyOps.isOnlyUpsert, hm]
  refine ⟨?_, ?_, ?_⟩
  · rw [decide_eq_true_iff, hn.1]
    simp only []
    omega
  · rw [Bool.if_false_right, Bool.and_eq_true, Bool.or_eq_true, decide_eq_true_iff, decide_eq_true_iff,
      decide_eq_true_iff, hn.2.1]
    simp only []
    omega
  · rw [decide_eq_true_iff, hn.2.2]

end

/-- The sum of the flags reads as the kind of operation that the last writes amount to, and the metadata recorded are
those of the last write of metadata. -/
def Combines (l : List KeyOp) : Prop :=
  if 8 ≤ flagSum l % 16 then lastWrite l = some none
  else if flagSum l % 2 = 1 ∧ 2 ≤ flagSum l % 8 then
    (∃ value, lastWrite l = some (some value)) ∧ lastMetadata l = some (lastUpdate l)
  else if flagSum l % 256 ≤ 1 then (∃ value, lastWrite l = some (some value)) ∧ lastMetadata l = none
  else lastWrite l = none ∧ lastMetadata l = some (lastUpdate l)

/-- Whether the operations on a key act as the last ones on the entry that is current: no value is kept that an earlier
transaction of the block deleted, and where the flags are misread the result is the same. -/
def Fits (l : List KeyOp) (preceding old : Option VersionedValue) : Prop :=
  let oldMetadata := (old.map VersionedValue.metadata).getD []
  if 8 ≤ flagSum l % 16 then lastWrite l = some none ∨ lastWrite l = none ∧ old = none
  else if flagSum l % 2 = 1 ∧ 2 ≤ flagSum l % 8 then
    (∃ value, lastWrite l = some (some value)) ∧ lastUpdate l = (lastMetadata l).getD oldMetadata
  else if flagSum l % 256 ≤ 1 then
    (∃ value, lastWrite l = some (some value)) ∧ oldMetadata = (lastMetadata l).getD oldMetadata
  else (∀ vv, preceding = some vv → vv.value ≠ none) ∧
    match old with
    | none => ∀ value, lastWrite l ≠ some (some value)
    | some vv => (lastWrite l = none ∨ some vv.value = lastWrite l) ∧ lastUpdate l = (lastMetadata l).getD vv.metadata

variable {l : List KeyOp} {preceding old : Option VersionedValue} {txHeight : Version}

theorem readFlags_foldl : readFlags (l.foldl KeyOps.apply {}) =
    if 8 ≤ flagSum l % 16 then .delete
    else if flagSum l % 2 = 1 ∧ 2 ≤ flagSum l % 8 then .put (lastUpsert l) (some (lastUpdate l))
    else if flagSum l % 256 ≤ 1 then .put (lastUpsert l) none
    else .putMetadata (lastUpdate l) := by
  obtain ⟨hd, hb, ho⟩ := flags_iff (flagSum l) (lastUpsert l) (lastUpdate l)
  rw [foldl_apply_eq, readFlags]
  simp only [hd, hb, ho]

theorem sequential_eq_put {metadata : Option Bytes} : sequential l = some (.put (lastUpsert l) metadata) ↔
    (∃ value, lastWrite l = some (some value)) ∧ lastMetadata l = metadata := by
  obtain ⟨hn, hsm⟩ := @lastUpsert_of_lastWrite l
  rcases hw : lastWrite l with _ | _ | v <;> cases hm : lastMetadata l <;>
    simp_all [sequential]

theorem readFlags_eq_sequential_iff (hl : l ≠ []) :
    some (readFlags (l.foldl KeyOps.apply {})) = sequential l ↔ Combines l := by
  have hne : sequential l ≠ none := sequential_eq_none.not.mpr hl
  rw [readFlags_foldl, Combines]
  split_ifs
  · rcases hw : lastWrite l with _ | _ | v <;> cases hm : lastMetadata l <;> simp [sequential, hw, hm] at hne ⊢
  · rw [eq_comm, sequential_eq_put]
  · rw [eq_comm, sequential_eq_put]
  · rcases hw : lastWrite l with _ | _ | v <;> cases hm : lastMetadata l <;> simp [sequential, hw, hm, eq_comm]

section

variable (sha256 : Bytes → Bytes) (serialize : List KVMetadataEntry → Bytes)

/-- The operation computed for a key of a write set is that of its writes one after the other if and only if their
flags combine rightly. -/
theorem txOps_sequential_iff (rwset : TxRwSet) (c : CompositeKey) :
    ((applyTxRwset sha256 serialize rwset).lookup c).map readFlags = sequential (opsFor (txOps sha256 serialize rwset) c) ↔
      opsFor (txOps sha256 serialize rwset) c = [] ∨ Combines (opsFor (txOps sha256 serialize rwset) c) := by
  rw [applyTxRwset_eq_ltx, lookup_applyLtxRwset]
  by_cases hl : opsFor (txOps sha256 serialize rwset) c = []
  · simp [hl, sequential_eq_none.mpr]
  · rw [if_neg hl, Option.map_some, readFlags_eq_sequential_iff hl]
    simp [hl]

/-- A key that is written twice keeps its old value: the two flags add up to that of a metadata update. -/
theorem repeated_write_read_as_metadata :
    ∃ rwset : TxRwSet, ((applyTxRwset id (fun _ => []) rwset).lookup ⟨[1], [], [2]⟩).map readFlags =
        some (.putMetadata []) ∧
      sequential (opsFor (txOps id (fun _ => []) rwset) ⟨[1], [], [2]⟩) = some (.put (some [4]) none) :=
  ⟨⟨[{ nameSpace := [1], kvRwSet := { writes := [⟨[2], false, [3]⟩, ⟨[2], false, [4]⟩] } }]⟩, by decide, by decide⟩

end

def merged (l : List KeyOp) (txHeight : Version) (old : Option VersionedValue) : Option VersionedValue :=
  (sequential l).elim old (KeyMerge.run txHeight old)

theorem effect_eq_run (ops : KeyOps) : effect ops txHeight old = (readFlags ops).run txHeight old := by
  rw [effect, readFlags]
  split_ifs <;> rfl

theorem fits_iff (hl : l ≠ []) (hol : ∀ vv, old = some vv → vv.value ≠ none) :
    Mergeable (l.foldl KeyOps.apply {}) preceding ∧
        effect (l.foldl KeyOps.apply {}) txHeight old = merged l txHeight old ↔ Fits l preceding old := by
  obtain ⟨hd, hb, ho⟩ := flags_iff (flagSum l) (lastUpsert l) (lastUpdate l)
  obtain ⟨hn, hsm⟩ := @lastUpsert_of_lastWrite l
  have hne : sequential l ≠ none := sequential_eq_none.not.mpr hl
  rw [effect_eq_run, readFlags_foldl, foldl_apply_eq, Mergeable, merged]
  unfold Fits
  simp only [hd, hb, ho]
  clear hd hb ho
  by_cases h8 : 8 ≤ flagSum l % 16
  · rcases hw : lastWrite l with _ | _ | v <;> cases hm : lastMetadata l <;> simp_all [sequential, KeyMerge.run]
  by_cases h2 : flagSum l % 2 = 1 ∧ 2 ≤ flagSum l % 8
  · simp only [h8, h2, false_or, if_false]
    rcases hw : lastWrite l with _ | _ | v <;> cases hm : lastMetadata l <;> simp_all [sequential, KeyMerge.run]
  by_cases h1 : flagSum l % 256 ≤ 1
  · simp only [h8, h2, h1, false_or, or_true, if_true, if_false]
    rcases hw : lastWrite l with _ | _ | v <;> cases hm : lastMetadata l <;> simp_all [sequential, KeyMerge.run]
  · simp only [h8, h2, h1, false_or, if_false]
    rcases hw : lastWrite l with _ | _ | v <;> cases hm : lastMetadata l <;> cases old <;>
      simp_all [sequential, KeyMerge.run]

section

variable (sha256 : Bytes → Bytes) (serialize : List KVMetadataEntry → Bytes) (store : StateStore)

inductive Prepared : PublicAndHashUpdates → Prop
  | empty : Prepared newPubAndHashUpdates
  | applied {u u' : PublicAndHashUpdates} {rwset : TxRwSet} {txHeight : Version} (h : Prepared u)
      (happly : applyWriteSet sha256 serialize u rwset txHeight store.db = .ok u') : Prepared u'

variable {sha256 serialize store} {u : PublicAndHashUpdates}

theorem Prepared.plainDeletes (h : Prepared sha256 serialize store u) : PlainDeletes u := by
  induction h with
  | empty => exact .new
  | applied _ ha ih => exact ih.applyWriteSet ha

theorem exists_merged_iff (hd : PlainDeletes u) (rwset : TxRwSet) (txHeight : Version) :
    (∃ u', applyWriteSet sha256 serialize u rwset txHeight store.db = .ok u' ∧
        ∀ c, latest u' store.db c = merged (opsFor (txOps sha256 serialize rwset) c) txHeight (latest u store.db c)) ↔
      ∀ c, opsFor (txOps sha256 serialize rwset) c ≠ [] →
        Fits (opsFor (txOps sha256 serialize rwset) c) (u.get c) (latest u store.db c) := by
  have hlk (c : CompositeKey) (hl : opsFor (txOps sha256 serialize rwset) c ≠ []) :
      (applyTxRwset sha256 serialize rwset).lookup c =
        some ((opsFor (txOps sha256 serialize rwset) c).foldl KeyOps.apply {}) := by
    rw [applyTxRwset_eq_ltx, lookup_applyLtxRwset, if_neg hl]
  have hf (c : CompositeKey) (hl : opsFor (txOps sha256 serialize rwset) c ≠ []) :=
    @fits_iff _ (u.get c) _ txHeight hl fun vv hvv => latest_value_ne_none store.value_ne_none (u := u) (c := c) hvv
  constructor
  · rintro ⟨u', ha, hmr⟩ c hl
    refine (hf c hl).mp ⟨(exists_applyWriteSet_iff hd).mp ⟨u', ha⟩ c _ (hlk c hl), ?_⟩
    rw [applyWriteSet_eq_ltx] at ha
    rw [← hmr c, latest_of_applyLtxWriteSet hd store.value_ne_none ha c, lookup_applyLtxRwset, if_neg hl]
    rfl
  · intro h
    have hme : ∀ c o, (applyTxRwset sha256 serialize rwset).lookup c = some o → Mergeable o (u.get c) := by
      intro c o ho
      by_cases hl : opsFor (txOps sha256 serialize rwset) c = []
      · simp [applyTxRwset_eq_ltx, lookup_applyLtxRwset, hl] at ho
      · rw [hlk c hl] at ho
        cases ho
        exact ((hf c hl).mpr (h c hl)).1
    obtain ⟨u', ha⟩ := (exists_applyWriteSet_iff hd).mpr hme
    refine ⟨u', ha, fun c => ?_⟩
    rw [applyWriteSet_eq_ltx] at ha
    rw [latest_of_applyLtxWriteSet hd store.value_ne_none ha c, lookup_applyLtxRwset]
    by_cases hl : opsFor (txOps sha256 serialize rwset) c = []
    · rw [hl]
      rfl
    · rw [if_neg hl]
      exact ((hf c hl).mpr (h c hl)).2

/-- A write set is added to the batch with the values and metadata of the reference merge if and only if the operations
on each of its keys fit the entry that is current. -/
theorem applyWriteSet_merges_iff (hu : Prepared sha256 serialize store u) (rwset : TxRwSet) (txHeight : Version) :
    (∃ u', applyWriteSet sha256 serialize u rwset txHeight store.db = .ok u' ∧
        ∀ c, latest u' store.db c = merged (opsFor (txOps sha256 serialize rwset) c) txHeight (latest u store.db c)) ↔
      ∀ c, opsFor (txOps sha256 serialize rwset) c ≠ [] →
        Fits (opsFor (txOps sha256 serialize rwset) c) (u.get c) (latest u store.db c) :=
  exists_merged_iff hu.plainDeletes rwset txHeight

def metadataOnly : TxRwSet :=
  ⟨[{ nameSpace := [1], kvRwSet := { metadataWrites := [⟨[2], [⟨[3], [4]⟩]⟩] } }]⟩

/-- Metadata written to a key that does not exist has no effect. -/
theorem applyWriteSet_merges_absent :
    ∃ u', applyWriteSet id (fun _ => []) newPubAndHashUpdates metadataOnly ⟨1, 0⟩ StateStore.empty.db = .ok u' ∧
      latest u' StateStore.empty.db ⟨[1], [], [2]⟩ = none := by
  obtain ⟨u', ha, hmr⟩ := (applyWriteSet_merges_iff
    (Prepared.empty : Prepared id (fun _ => []) .empty _) metadataOnly ⟨1, 0⟩).mpr fun c hl => by
      by_cases hc : (⟨[1], [], [2]⟩ : CompositeKey) = c
      · subst hc
        refine ⟨fun vv hvv => ?_, ?_⟩
        · cases hvv
        · intro value hvl
          cases hvl
      · exact absurd (by simp [txOps, nsOps, publicOps, metadataOnly, opsFor, hc]) hl
  exact ⟨u', ha, (hmr _).trans (by decide)⟩

/-- Metadata written to a key that an earlier transaction of the block deleted: the nil value of the deletion is put. -/
theorem metadata_of_deleted_key_panics :
    ∃ u, Prepared id (fun _ => []) .empty u ∧
      applyWriteSet id (fun _ => []) u metadataOnly ⟨1, 1⟩ StateStore.empty.db = .panic := by
  exact ⟨_, .applied .empty (rfl : applyWriteSet id (fun _ => []) _
    ⟨[{ nameSpace := [1], kvRwSet := { writes := [⟨[2], true, []⟩] } }]⟩ ⟨1, 0⟩ StateStore.empty.db = _), rfl⟩

end

end Drunix.Ledger.Validation
