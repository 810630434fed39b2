import Drunix.Ledger.StateSql.RangeScan

namespace Drunix.Ledger.StateSql

open Proto

/-- The operations of the state database on a namespace. A range scan and its bookmark are each a query of
their iterator; a rich query comes with the rows that its condition holds of. -/
inductive Operation where
  | get (key : Bytes)
  | bulkVersion (key : Bytes)
  | set (key : Bytes)
  | delete (key : Bytes)
  | rangeScan (startKey : Bytes)
  | bookmark (startKey : Bytes)
  | richQuery (selects : Bytes → VersionedValue → Bool)

def TextOps.selects (text : TextOps) (key rowKey : Bytes) : Bool :=
  text.valid (scanPattern key) && text.matchesScan key rowKey

namespace SqlSchema

section

variable (s : SqlSchema) (text : TextOps) (rows : Rows) (ns : Bytes)

/-- The table of an operation. The scanner keeps the start key without its namespace for the bookmark, and the
rich query hands its namespace over where a key is expected. -/
def tableOf : Operation → TableRef
  | .get key => s.getTable (encodeDataKey ns key)
  | .bulkVersion _ => s.getTableFromNamespace ns
  | .set key => s.getTable (encodeDataKey ns key)
  | .delete key => s.getTable (encodeDataKey ns key)
  | .rangeScan startKey => s.getTable (encodeDataKey ns (scanStart startKey))
  | .bookmark startKey => s.getTable (scanStart startKey)
  | .richQuery _ => s.getTable ns

def Touches (op : Operation) (rowKey : Bytes) : Prop :=
  match op with
  | .get key => rowKey = encodeDataKey ns key
  | .bulkVersion key => rowKey = encodeDataKey ns key
  | .set key => rowKey = encodeDataKey ns key
  | .delete key => rowKey = encodeDataKey ns key
  | .rangeScan startKey =>
    rows ((s.tableOf ns op).table, rowKey) ≠ none ∧ text.selects (encodeDataKey ns (scanStart startKey)) rowKey
  | .bookmark startKey => rows ((s.tableOf ns op).table, rowKey) ≠ none ∧ text.selects (scanStart startKey) rowKey
  | .richQuery selects => ∃ vv, rows ((s.tableOf ns op).table, rowKey) = some vv ∧ selects rowKey vv

def nsTable : Bytes :=
  (s.getTable (encodeDataKey ns [])).table

structure Isolated (op : Operation) : Prop where
  table : (s.tableOf ns op).table = s.nsTable ns
  created : ∀ name, (s.tableOf ns op).created = some name → s.tableName name = s.nsTable ns
  rows : ∀ rowKey, s.Touches text rows ns op rowKey → ∃ key, rowKey = encodeDataKey ns key

def sharesTable : Bool :=
  isLifecycleName ns || ns = s.peerid ++ ascii "_lifecycle"

def RawKeySafe (raw : Bytes) : Prop :=
  if s.sharesTable ns then isLifecycleKey raw ∨ beforeSep (cutDataKeyPrefix raw) = s.peerid ++ ascii "_lifecycle"
  else isLifecycleKey raw = false ∧ beforeSep (cutDataKeyPrefix raw) = ns

def SharedSafe (selects : Bytes → VersionedValue → Prop) : Prop :=
  s.sharesTable ns → ∀ rowKey vv, rows (s.lifecycleTable, rowKey) = some vv → selects rowKey vv →
    ∃ key, rowKey = encodeDataKey ns key

def OperationSafe : Operation → Prop
  | .get _ => True
  | .bulkVersion _ => s.isOtherTable ns [] = false
  | .set _ => True
  | .delete _ => True
  | .rangeScan startKey => s.SharedSafe rows ns fun rowKey _ => text.selects (encodeDataKey ns (scanStart startKey)) rowKey
  | .bookmark startKey =>
    s.RawKeySafe ns (scanStart startKey) ∧ s.SharedSafe rows ns fun rowKey _ => text.selects (scanStart startKey) rowKey
  | .richQuery selects => s.RawKeySafe ns ns ∧ s.SharedSafe rows ns fun rowKey vv => selects rowKey vv

structure DataRows : Prop where
  placed : s.WellPlaced rows
  keys : ∀ table rowKey, rows (table, rowKey) ≠ none →
    rowKey = savePointKey ∨ ∃ ns key, 0x00 ∉ ns ∧ rowKey = encodeDataKey ns key

end

section

variable {s : SqlSchema} {text : TextOps} {rows : Rows} {ns key raw : Bytes} {op : Operation}

theorem isPeerKey_eq_false (hne : ns ≠ []) : isPeerKey ns key = false := by
  rw [isPeerKey, decide_eq_false hne, Bool.false_and]

section

variable (hne : ns ≠ []) (hns : 0x00 ∉ ns)
include hne hns

theorem getTable_table : (s.getTable (encodeDataKey ns key)).table = s.nsTable ns := by
  rw [nsTable]
  cases hn : isLifecycleName ns with
  | true => rw [(getTable_kept hns (by rw [hn, Bool.true_or])).1, (getTable_kept hns (by rw [hn, Bool.true_or])).1]
  | false =>
    rw [getTable_own hns (by rw [hn, isPeerKey_eq_false hne]; rfl),
      getTable_own hns (by rw [hn, isPeerKey_eq_false hne]; rfl)]

theorem nsTable_of_shares (h : s.sharesTable ns = true) : s.nsTable ns = s.lifecycleTable := by
  rw [nsTable]
  cases hn : isLifecycleName ns with
  | true => exact (getTable_kept hns (by rw [hn, Bool.true_or])).1
  | false =>
    rw [sharesTable, hn, Bool.false_or, decide_eq_true_iff] at h
    rw [getTable_own hns (by rw [hn, isPeerKey_eq_false hne]; rfl)]
    exact tableName_eq_lifecycleTable_iff.mpr h

theorem nsTable_of_not_shares (h : s.sharesTable ns = false) : s.nsTable ns = s.tableName ns := by
  rw [sharesTable, Bool.or_eq_false_iff] at h
  rw [nsTable, getTable_own hns (by rw [h.1, isPeerKey_eq_false hne]; rfl)]
  rfl

end

theorem tableName_ne_lifecycleTable (h : s.sharesTable ns = false) : s.tableName ns ≠ s.lifecycleTable := by
  rw [sharesTable, Bool.or_eq_false_iff, decide_eq_false_iff_not] at h
  exact fun heq => h.2 (tableName_eq_lifecycleTable_iff.mp heq)

theorem getTable_of_isLifecycleKey (h : isLifecycleKey raw = true) : (s.getTable raw).table = s.lifecycleTable := by
  rw [getTable]
  split
  · rfl
  · rfl

theorem getTable_of_not_isLifecycleKey (h : isLifecycleKey raw = false) :
    s.getTable raw = s.dynamicTable (beforeSep (cutDataKeyPrefix raw)) := by
  have hl : lastLifecycleBlockNumberKey ≠ raw := by
    rintro rfl
    exact absurd h (by decide)
  rw [getTable, if_neg hl, if_neg (by rw [h]; exact Bool.false_ne_true)]

theorem created_table {name : Bytes} (h : (s.getTable raw).created = some name) :
    s.tableName name = (s.getTable raw).table := by
  cases hk : isLifecycleKey raw with
  | true =>
    rw [getTable] at h
    split at h
    · cases h
    · cases h
  | false =>
    rw [getTable_of_not_isLifecycleKey hk] at h ⊢
    cases h
    rfl

theorem rawKeySafe_iff (hne : ns ≠ []) (hns : 0x00 ∉ ns) (raw : Bytes) :
    (s.getTable raw).table = s.nsTable ns ↔ s.RawKeySafe ns raw := by
  rw [RawKeySafe]
  cases hsh : s.sharesTable ns with
  | true =>
    rw [nsTable_of_shares hne hns hsh]
    cases hk : isLifecycleKey raw with
    | true => exact iff_of_true (getTable_of_isLifecycleKey hk) (.inl rfl)
    | false =>
      rw [getTable_of_not_isLifecycleKey hk, or_iff_right Bool.false_ne_true]
      exact tableName_eq_lifecycleTable_iff
  | false =>
    rw [nsTable_of_not_shares hne hns hsh]
    cases hk : isLifecycleKey raw with
    | true =>
      rw [getTable_of_isLifecycleKey hk]
      exact iff_of_false (tableName_ne_lifecycleTable hsh).symm fun h => Bool.false_ne_true h.1.symm
    | false =>
      rw [getTable_of_not_isLifecycleKey hk, and_iff_right rfl]
      exact ⟨tableName_inj, fun h => congrArg s.tableName h⟩

theorem DataRows.own (hr : s.DataRows rows) (hsh : s.sharesTable ns = false) {rowKey : Bytes}
    (hrw : rows (s.tableName ns, rowKey) ≠ none) : ∃ key, rowKey = encodeDataKey ns key := by
  have ht := hr.placed _ _ hrw
  have hne := tableName_ne_lifecycleTable hsh
  rcases hr.keys _ _ hrw with rfl | ⟨ns', key, hns', rfl⟩
  · exact absurd ht hne
  · cases hk : isLifecycleName ns' || isPeerKey ns' key with
    | true =>
      rw [(getTable_kept hns' hk).1] at ht
      exact absurd ht hne
    | false =>
      rw [getTable_own hns' hk] at ht
      rw [tableName_inj ht]
      exact ⟨key, rfl⟩

theorem sharedSafe_iff (hr : s.DataRows rows) (hne : ns ≠ []) (hns : 0x00 ∉ ns) (selects : Bytes → VersionedValue → Prop) :
    (∀ rowKey vv, rows (s.nsTable ns, rowKey) = some vv → selects rowKey vv → ∃ key, rowKey = encodeDataKey ns key) ↔
      s.SharedSafe rows ns selects := by
  rw [SharedSafe]
  cases hsh : s.sharesTable ns with
  | true =>
    rw [nsTable_of_shares hne hns hsh]
    exact ⟨fun h _ => h, fun h => h rfl⟩
  | false =>
    rw [nsTable_of_not_shares hne hns hsh]
    refine iff_of_true ?_ fun h => absurd h Bool.false_ne_true
    intro rowKey vv hrw _
    exact hr.own hsh (by rw [hrw]; exact Option.some_ne_none vv)

theorem forall_present {table : Bytes} {p : Bytes → Prop} {q : Bytes → Prop} :
    (∀ rowKey, rows (table, rowKey) ≠ none ∧ p rowKey → q rowKey) ↔
      ∀ rowKey vv, rows (table, rowKey) = some vv → p rowKey → q rowKey := by
  constructor
  · intro h rowKey vv hr hp
    exact h rowKey ⟨by rw [hr]; exact Option.some_ne_none vv, hp⟩
  · rintro h rowKey ⟨hr, hp⟩
    obtain ⟨vv, hvv⟩ := Option.ne_none_iff_exists'.mp hr
    exact h rowKey vv hvv hp

theorem isolated_of_point (hne : ns ≠ []) (hns : 0x00 ∉ ns)
    (ht : s.tableOf ns op = s.getTable (encodeDataKey ns key))
    (htc : ∀ rowKey, s.Touches text rows ns op rowKey → rowKey = encodeDataKey ns key) :
    s.Isolated text rows ns op where
  table := by rw [ht, getTable_table hne hns]
  created := by
    intro name hn
    rw [ht] at hn
    rw [created_table hn, getTable_table hne hns]
  rows := fun rowKey h => ⟨key, htc rowKey h⟩

theorem isolated_query_iff {selects : Bytes → VersionedValue → Prop} (hr : s.DataRows rows) (hne : ns ≠ [])
    (hns : 0x00 ∉ ns) (ht : s.tableOf ns op = s.getTable raw)
    (htc : (∀ rowKey, s.Touches text rows ns op rowKey → ∃ key, rowKey = encodeDataKey ns key) ↔
      ∀ rowKey vv, rows ((s.getTable raw).table, rowKey) = some vv → selects rowKey vv → ∃ key, rowKey = encodeDataKey ns key) :
    s.Isolated text rows ns op ↔ s.RawKeySafe ns raw ∧ s.SharedSafe rows ns selects := by
  rw [← rawKeySafe_iff hne hns, ← sharedSafe_iff hr hne hns]
  constructor
  · intro h
    have hsm : (s.getTable raw).table = s.nsTable ns := ht ▸ h.table
    rw [← hsm]
    exact ⟨rfl, htc.mp h.rows⟩
  · rintro ⟨hsm, hsl⟩
    refine ⟨by rw [ht, hsm], ?_, htc.mpr (by rwa [hsm])⟩
    intro name hn
    rw [ht] at hn
    rw [created_table hn, hsm]

theorem isolated_bulkVersion_iff (hns : 0x00 ∉ ns) :
    s.Isolated text rows ns (.bulkVersion key) ↔ s.isOtherTable ns [] = false := by
  have hi := @table_eq_iff s ns [] hns
  constructor
  · exact fun h => hi.mp h.table
  · intro h
    have ht := hi.mpr h
    refine ⟨ht, ?_, fun rowKey hk => ⟨key, hk⟩⟩
    intro name hn
    rw [tableOf, getTableFromNamespace] at hn
    split at hn
    · cases hn
    · next hsy =>
        cases hn
        rw [getTableFromNamespace, if_neg hsy] at ht
        exact ht

end

/-- An operation keeps to its namespace if and only if it is safe. -/
theorem namespace_isolated_iff (s : SqlSchema) (text : TextOps) (rows : Rows) (hrows : s.DataRows rows) (ns : Bytes) (hne : ns ≠ [])
    (hns : 0x00 ∉ ns) (op : Operation) : s.Isolated text rows ns op ↔ s.OperationSafe text rows ns op := by
  cases op with
  | get key => exact iff_of_true (isolated_of_point hne hns rfl fun _ h => h) trivial
  | bulkVersion key => exact isolated_bulkVersion_iff hns
  | set key => exact iff_of_true (isolated_of_point hne hns rfl fun _ h => h) trivial
  | delete key => exact iff_of_true (isolated_of_point hne hns rfl fun _ h => h) trivial
  | rangeScan startKey =>
    have hq : s.Isolated text rows ns (.rangeScan startKey) ↔
        s.RawKeySafe ns (encodeDataKey ns (scanStart startKey)) ∧ s.OperationSafe text rows ns (.rangeScan startKey) :=
      isolated_query_iff hrows hne hns rfl forall_present
    have ht : s.RawKeySafe ns (encodeDataKey ns (scanStart startKey)) :=
      (rawKeySafe_iff hne hns _).mp (getTable_table hne hns)
    rw [hq, and_iff_right ht]
  | bookmark startKey => exact isolated_query_iff hrows hne hns rfl forall_present
  | richQuery selects =>
    apply isolated_query_iff hrows hne hns rfl
    constructor
    · intro h rowKey vv hr hsl
      exact h rowKey ⟨vv, hr, hsl⟩
    · rintro h rowKey ⟨vv, hr, hsl⟩
      exact h rowKey vv hr hsl

theorem dataRows_oneRow (s : SqlSchema) (ns key : Bytes) (hns : 0x00 ∉ ns) : s.DataRows (s.oneRow ns key).rows where
  placed := wellPlaced_oneRow s ns key
  keys := by
    intro table rowKey hr
    have htk : (table, rowKey) = s.location (encodeDataKey ns key) := by
      by_contra hne
      exact hr (if_neg hne)
    exact .inr ⟨ns, key, hns, (Prod.mk.inj htk).2⟩

theorem namespace_isolated_payments :
    channelSchema.Isolated asciiText (channelSchema.oneRow (ascii "pay") (ascii "k")).rows (ascii "pay") (.rangeScan []) := by
  apply (namespace_isolated_iff channelSchema asciiText _ (dataRows_oneRow _ _ _ (by decide)) (ascii "pay") (by decide)
    (by decide) (.rangeScan [])).mpr
  intro hsh
  exact absurd hsh (by decide)

/-- A rich query on a chaincode whose name starts with the letter of the data keys asks the table of another one. -/
theorem rich_query_other_namespace :
    ¬ channelSchema.Isolated asciiText (channelSchema.oneRow (ascii "pay") (ascii "k")).rows (ascii "dpay")
        (.richQuery fun _ _ => true) ∧
      channelSchema.Touches asciiText (channelSchema.oneRow (ascii "pay") (ascii "k")).rows (ascii "dpay")
        (.richQuery fun _ _ => true) (encodeDataKey (ascii "pay") (ascii "k")) := by
  constructor
  · intro h
    exact absurd h.table (by decide)
  · exact ⟨definition, by decide, rfl⟩

end SqlSchema

end Drunix.Ledger.StateSql
