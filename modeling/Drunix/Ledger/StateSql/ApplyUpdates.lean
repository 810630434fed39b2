import Drunix.Ledger.VarUint
import Drunix.Ledger.StateSql.ValueCache

namespace Drunix.Ledger.StateSql

open Lib Proto List Option

/-- Updates by namespace and key; a nil value deletes the key. -/
structure UpdateBatch where
  schemaUpdates : List Bytes := []
  updates : AMap (Bytes × Bytes) VersionedValue
  ns_zero : ∀ k ∈ updates, 0x00 ∉ k.1

def beforeDollars : Bytes → Bytes
  | [] => []
  | [c] => [c]
  | c :: c' :: rest => if c = 0x24 ∧ c' = 0x24 then [] else c :: beforeDollars (c' :: rest)

def isLifecycleKeys (ns : Bytes) : Bool :=
  beforeDollars ns = ascii "_lifecycle" || beforeDollars ns = []

namespace UpdateBatch

variable (b : UpdateBatch)

def isLifecycleUpdate : Bool :=
  b.updates.keys.any fun k => isLifecycleKeys k.1

def encoded : AMap Bytes VersionedValue :=
  b.updates.mapKeys fun k => encodeDataKey k.1 k.2

def updateData : AMap Bytes VersionedValue :=
  b.encoded.filterMap fun _ vv => if vv.value = none then none else some vv

def deleteData : List Bytes :=
  (b.encoded.filterMap fun _ vv => if vv.value = none then some vv else none).keys

end UpdateBatch

/-- What `ApplyUpdates` meets: the answers to the schema changes, to the concurrent `Set` and `Delete`,
to `SetHeight`, and to the `Set` of the savepoint. -/
structure ApplyAnswers where
  exec : Bytes → Bool := fun _ => true
  set : SqlAnswers := {}
  delete : SqlAnswers := {}
  setHeight : Bool := true
  savepoint : SqlAnswers := {}

def heightRow (height : Version) : VersionedValue :=
  ⟨some (heightToBytes height), [], height⟩

def savepointData (isLifecycleUpdate : Bool) (height : Version) : AMap Bytes VersionedValue :=
  let data := AList.singleton savePointKey (heightRow height)
  if isLifecycleUpdate then data.insert lastLifecycleBlockNumberKey (heightRow height) else data

namespace SqlSchema

variable (s : SqlSchema)

def setUpdates (answers : SqlAnswers) (h : Handle) (batch : UpdateBatch) : Handle × Outcome Unit Unit :=
  if batch.updateData.entries.isEmpty then (h, .ok ()) else s.set answers h batch.updateData

def deleteUpdates (answers : SqlAnswers) (h : Handle) (batch : UpdateBatch) : Handle × Outcome Unit Unit :=
  if batch.deleteData.isEmpty then (h, .ok ()) else s.delete answers h batch.deleteData

/-- The concurrent `Set` and `Delete`, which have no key in common; both are waited for. -/
def writeUpdates (a : ApplyAnswers) (h : Handle) (batch : UpdateBatch) : Handle × Outcome Unit Unit :=
  let r₁ := s.setUpdates a.set h batch
  let r₂ := s.deleteUpdates a.delete r₁.1 batch
  (r₂.1, if r₁.2 = .panic ∨ r₂.2 = .panic then .panic else if r₁.2 = .ok () ∧ r₂.2 = .ok () then .ok () else .err ())

def applyUpdates (litePeerEnabled : Bool) (a : ApplyAnswers) (h : Handle) (batch : UpdateBatch) (height : Option Version) :
    Handle × Outcome Unit Unit :=
  if litePeerEnabled then (h, .ok ())
  else if !batch.schemaUpdates.all a.exec then (h, .err ())
  else
    let r := s.writeUpdates a h batch
    if r.2 ≠ .ok () then r
    else
      match height with
      | none => r
      | some height =>
        if a.setHeight then s.set a.savepoint r.1 (savepointData batch.isLifecycleUpdate height) else (r.1, .err ())

def getLatestSavePoint (litePeerEnabled : Bool) (answers : SqlAnswers) (h : Handle) : Outcome Unit (Option Version) := do
  match ← (s.get answers h savePointKey).2 with
  | none => return none
  | some vv =>
    let version ← .orErr () (newHeightFromBytes (vv.value.getD []))
    return some (if litePeerEnabled then ⟨0, 0⟩ else version)

end SqlSchema

/-! ### The rows a batch writes -/

variable {key : Bytes}

namespace UpdateBatch

variable {b : UpdateBatch} {dataKey : Bytes} {vv : VersionedValue}

theorem lookup_encoded {ns : Bytes} (hns : 0x00 ∉ ns) :
    b.encoded.lookup (encodeDataKey ns key) = b.updates.lookup (ns, key) := by
  apply AMap.lookup_mapKeys (fun k => encodeDataKey k.1 k.2) b.updates (ns, key)
  intro k hk he
  obtain ⟨hns', hky⟩ := encodeDataKey_inj (b.ns_zero k hk) hns he
  exact Prod.ext hns' hky

theorem lookup_updateData : b.updateData.lookup dataKey = some vv ↔ b.encoded.lookup dataKey = some vv ∧ vv.value ≠ none := by
  simp [updateData, AMap.lookup_filterMap, bind_eq_some_iff]

theorem mem_deleteData : dataKey ∈ b.deleteData ↔ ∃ vv, b.encoded.lookup dataKey = some vv ∧ vv.value = none := by
  rw [deleteData, ← AList.mem_keys, ← AList.lookup_isSome, AMap.lookup_filterMap]
  simp [isSome_iff_exists, bind_eq_some_iff]

end UpdateBatch

namespace SqlSchema

variable {s : SqlSchema} {a : ApplyAnswers} {h : Handle} {batch : UpdateBatch} {vv : VersionedValue}
  {isLifecycleUpdate : Bool} {height : Version}

def written (s : SqlSchema) (dataKey : Bytes) (vv : VersionedValue) : Option VersionedValue :=
  if vv.value = none then none else some (s.stored dataKey vv)

section

variable (s a h batch) (answers : SqlAnswers) (tk : TableKey)

def RowFrom (h' : Handle) : Prop :=
  h'.rows tk = h.rows tk ∨ ∃ dataKey vv, batch.encoded.lookup dataKey = some vv ∧ tk = s.location dataKey ∧
    h'.rows tk = s.written dataKey vv

theorem setUpdates_row_cases : s.RowFrom h batch tk (s.setUpdates answers h batch).1 := by
  rw [setUpdates]
  split
  · exact .inl rfl
  · rcases set_row_cases s answers h batch.updateData tk with hsm | ⟨dataKey, vv, hl, htk, hr⟩
    · exact .inl hsm
    · rw [UpdateBatch.lookup_updateData] at hl
      exact .inr ⟨dataKey, vv, hl.1, htk, by rw [hr, written, if_neg hl.2]⟩

theorem deleteUpdates_row_cases : s.RowFrom h batch tk (s.deleteUpdates answers h batch).1 := by
  rw [deleteUpdates]
  split
  · exact .inl rfl
  · rcases delete_row_cases s answers h batch.deleteData tk with hsm | ⟨dataKey, hm, htk, hr⟩
    · exact .inl hsm
    · obtain ⟨vv, hl, hv⟩ := UpdateBatch.mem_deleteData.mp hm
      exact .inr ⟨dataKey, vv, hl, htk, by rw [hr, written, if_pos hv]⟩

theorem writeUpdates_row_cases : s.RowFrom h batch tk (s.writeUpdates a h batch).1 := by
  rcases deleteUpdates_row_cases s (s.setUpdates a.set h batch).1 batch a.delete tk with hsm | hw
  · rcases setUpdates_row_cases s h batch a.set tk with hs' | ⟨dataKey, vv, hl, htk, hr⟩
    · exact .inl (hsm.trans hs')
    · exact .inr ⟨dataKey, vv, hl, htk, hsm.trans hr⟩
  · exact .inr hw

end

theorem writeUpdates_eq_ok (hok : (s.writeUpdates a h batch).2 = .ok ()) :
    (s.setUpdates a.set h batch).2 = .ok () ∧
      (s.deleteUpdates a.delete (s.setUpdates a.set h batch).1 batch).2 = .ok () := by
  simp only [writeUpdates] at hok
  split at hok
  · cases hok
  · split at hok
    · assumption
    · cases hok

theorem writeUpdates_row_of_ok (hok : (s.writeUpdates a h batch).2 = .ok ()) {dataKey : Bytes}
    (hl : batch.encoded.lookup dataKey = some vv) :
    (s.writeUpdates a h batch).1.rows (s.location dataKey) = s.written dataKey vv := by
  obtain ⟨hst, hd⟩ := writeUpdates_eq_ok hok
  by_cases hv : vv.value = none
  · have hm : dataKey ∈ batch.deleteData := UpdateBatch.mem_deleteData.mpr ⟨vv, hl, hv⟩
    have hne : ¬ batch.deleteData.isEmpty := by
      rw [List.isEmpty_iff]
      exact List.ne_nil_of_mem hm
    rw [deleteUpdates, if_neg hne] at hd
    rw [written, if_pos hv, writeUpdates, deleteUpdates, if_neg hne]
    exact delete_row_of_ok hd hm
  · have hl' : batch.updateData.lookup dataKey = some vv := UpdateBatch.lookup_updateData.mpr ⟨hl, hv⟩
    have hne : ¬ batch.updateData.entries.isEmpty := by
      rw [List.isEmpty_iff]
      exact List.ne_nil_of_mem (AList.mem_lookup_iff.mp hl')
    have ha : (s.setUpdates a.set h batch).1.rows (s.location dataKey) = s.written dataKey vv := by
      rw [setUpdates, if_neg hne] at hst ⊢
      rw [written, if_neg hv]
      exact set_row_of_ok hst hl'
    rcases deleteUpdates_row_cases s (s.setUpdates a.set h batch).1 batch a.delete (s.location dataKey) with
      hsm | ⟨dataKey', vv', hl'', htk, hr⟩
    · exact hsm.trans ha
    · have hk : dataKey = dataKey' := congrArg Prod.snd htk
      subst hk
      rw [hl, Option.some.injEq] at hl''
      subst hl''
      exact hr

def SavepointTogether (s : SqlSchema) (a : ApplyAnswers) (batch : UpdateBatch) : Prop :=
  2 ≤ s.batchsize ∨ batch.isLifecycleUpdate = false ∨
    (a.savepoint.statement 0).applied = (a.savepoint.statement 1).applied

theorem getTable_savePointKey (s : SqlSchema) : s.getTable savePointKey = ⟨s.lifecycleTable, true, none⟩ := by
  rw [getTable, if_neg (by decide), if_pos (by decide)]

theorem lookup_savepointData :
    (savepointData isLifecycleUpdate height).lookup key = some vv ↔
      vv = heightRow height ∧ (key = savePointKey ∨ isLifecycleUpdate = true ∧ key = lastLifecycleBlockNumberKey) := by
  have hsn : (AList.singleton savePointKey (heightRow height) : AMap Bytes VersionedValue).lookup key = some vv ↔
      vv = heightRow height ∧ key = savePointKey := by
    rw [← mem_def, AList.mem_lookup_iff]
    change (⟨key, vv⟩ : Sigma fun _ : Bytes => VersionedValue) ∈ [⟨savePointKey, heightRow height⟩] ↔ _
    rw [mem_singleton, Sigma.mk.injEq, heq_eq_eq, and_comm]
  rw [savepointData]
  cases isLifecycleUpdate with
  | false => simpa using hsn
  | true =>
    by_cases hk : key = lastLifecycleBlockNumberKey
    · subst hk
      simp [eq_comm]
    · simpa [hk, AList.lookup_insert_ne hk] using hsn

theorem table_savepointData (hl : (savepointData isLifecycleUpdate height).lookup key = some vv) :
    (s.getTable key).table = s.lifecycleTable := by
  rcases (lookup_savepointData.mp hl).2 with rfl | ⟨_, rfl⟩
  · rw [getTable_savePointKey]
  · exact congrArg TableRef.table (if_pos rfl)

theorem savepoint_statements (ht : s.SavepointTogether a batch)
    {batches : List (List (TableKey × VersionedValue))}
    (hb : s.setBatches a.savepoint (savepointData batch.isLifecycleUpdate height) = .ok batches) :
    ∀ i < batches.length, (a.savepoint.statement i).applied = (a.savepoint.statement 0).applied := by
  have htb := tableBatches_of_setBatches hb
  generalize hen : ((savepointData batch.isLifecycleUpdate height).entries.map fun e =>
    (s.location e.1, s.stored e.1 e.2)) = entries at htb
  have hlen : entries.length = if batch.isLifecycleUpdate then 2 else 1 := by
    rw [← hen]
    cases batch.isLifecycleUpdate <;> rfl
  have hne : entries ≠ [] := by
    intro hnil
    rw [hnil] at hlen
    cases hl : batch.isLifecycleUpdate <;> simp [hl] at hlen
  have hsm : ∀ e ∈ entries, e.1.1 = s.lifecycleTable := by
    intro e he
    rw [← hen, List.mem_map] at he
    obtain ⟨x, hx, rfl⟩ := he
    exact table_savepointData (AList.mem_lookup_iff.mpr hx)
  obtain ⟨hpos, rfl⟩ := tableBatches_of_same_table hne hsm htb
  intro i hi
  by_cases hf : entries.length ≤ s.batchsize
  · rw [chunks_eq_singleton hne hf, length_singleton] at hi
    obtain rfl : i = 0 := by omega
    rfl
  · have hlf : batch.isLifecycleUpdate = true := by
      cases hl : batch.isLifecycleUpdate with
      | true => rfl
      | false =>
        rw [hl] at hlen
        simp only [Bool.false_eq_true, if_false] at hlen
        omega
    rw [if_pos hlf] at hlen
    obtain ⟨e₁, e₂, rfl⟩ := length_eq_two.mp hlen
    have ho : s.batchsize = 1 := by
      omega
    have ha : (a.savepoint.statement 0).applied = (a.savepoint.statement 1).applied := by
      rcases ht with h2 | hno | heq
      · omega
      · rw [hlf] at hno
        cases hno
      · exact heq
    rw [ho] at hi
    change i < 2 at hi
    obtain rfl | rfl : i = 0 ∨ i = 1 := by omega
    · rfl
    · exact ha.symm

theorem savepoint_all_or_none (ht : s.SavepointTogether a batch) (height : Version) :
    (s.set a.savepoint h (savepointData batch.isLifecycleUpdate height)).1.rows = h.rows ∨
      ∀ key vv, (savepointData batch.isLifecycleUpdate height).lookup key = some vv →
        (s.set a.savepoint h (savepointData batch.isLifecycleUpdate height)).1.rows (s.location key) = some vv := by
  rcases set_cases s a.savepoint h (savepointData batch.isLifecycleUpdate height) with
    ⟨_, hst⟩ | ⟨_, hst⟩ | ⟨batches, hb, hst⟩ <;> simp only [hst]
  · exact .inl trivial
  · exact .inl trivial
  · rcases appliedEntries_all_or_none (savepoint_statements ht hb) with hn | ha
    · left
      rw [hn]
      rfl
    · right
      intro key vv hl
      apply upsert_applied hb
      rw [ha, mem_flatten_setBatches hb]
      exact ⟨key, vv, hl, by rw [stored_of_lifecycleTable (table_savepointData hl)]⟩

end SqlSchema

end Drunix.Ledger.StateSql
