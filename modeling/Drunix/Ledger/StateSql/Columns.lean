import Drunix.Ledger.StateSql.ValueCache

namespace Drunix.Ledger.StateSql

open Lib Proto Outcome List

namespace SqlSchema

variable (s : SqlSchema) (valid : Bytes → Bool) (h : Handle) (data : AMap Bytes VersionedValue)

/-- Whether the value column takes the value of a row, which is NULL for an empty `datatypes.JSON`. -/
def acceptsRow (row : TableKey × VersionedValue) : Bool :=
  s.byteColumn (s.getTable row.1.2) || ((data.lookup row.1.2).bind VersionedValue.value).all fun text =>
    !keepsBytes row.1.1 && text.isEmpty || valid text

/-- A database in which nothing fails but the statements with a text that is not valid for its JSON column. -/
def jsonAnswers : SqlAnswers where
  statement i :=
    if (((s.setBatches {} data).toOption.getD []).getD i []).all (s.acceptsRow valid data) then .done else .failed

def RoundTrips : Prop :=
  let r := s.set (s.jsonAnswers valid data) h data
  r.2 = .ok () ∧ ∀ key vv, data.lookup key = some vv →
    ∃ vv', (s.get (s.jsonAnswers valid data) r.1 key).2 = .ok (some vv') ∧ vv'.value.getD [] = vv.value.getD []

/-- What a column gives back as it is. -/
def GivenBack (t : TableRef) (value : Option Bytes) : Prop :=
  s.byteColumn t ∨ (keepsBytes t.table ∨ isJsonNull value = false) ∧
    ∀ text, value = some text → (keepsBytes t.table = false ∧ text = []) ∨ valid text ∧ s.jsonb text = text

variable {s valid h data} {batches : List (List (TableKey × VersionedValue))} {key : Bytes} {vv : VersionedValue}

theorem exists_parseRow_iff : (∃ row, s.parseRow {} key vv = .ok row) ↔
    (s.getTable key).table.count 0x2e = 1 ∧ (keepsBytes (s.getTable key).table ∨ isJsonNull vv.value = false) := by
  have hu : useTable {} (s.getTable key) = .ok () := by
    rw [useTable]
    cases (s.getTable key).created <;> rfl
  simp only [parseRow, hu, ok_bind]
  by_cases hn : !keepsBytes (s.getTable key).table && isJsonNull vv.value
  · simp_all
  · rw [if_neg hn]
    have hor : keepsBytes (s.getTable key).table ∨ isJsonNull vv.value = false := by
      simpa [or_iff_not_imp_left] using hn
    simp [hor, filterKeys, bind_eq_ok]

theorem exists_setBatches_iff : (∃ batches, s.setBatches {} data = .ok batches) ↔
    ∀ key vv, data.lookup key = some vv → s.batchsize ≠ 0 ∧ ∃ row, s.parseRow {} key vv = .ok row := by
  simp only [setBatches, bind_eq_ok]
  constructor
  · rintro ⟨batches, parsedData, hp, hb⟩ key vv hl
    obtain ⟨row, hr, hok⟩ := exists_mem_of_mapM hp (AList.mem_lookup_iff.mp hl)
    refine ⟨fun hz => ?_, row, hok⟩
    rw [tableBatches, if_neg (by simpa using ne_nil_of_mem hr), if_pos hz] at hb
    cases hb
  · intro hal
    obtain ⟨parsedData, hp⟩ := exists_mapM_eq_ok fun (e : Sigma fun _ : Bytes => VersionedValue) he =>
      (hal e.1 e.2 (AList.mem_lookup_iff.mpr he)).2
    simp only [hp, ok.injEq, exists_eq_left', tableBatches]
    by_cases hem : parsedData.isEmpty
    · exact ⟨_, if_pos hem⟩
    · obtain ⟨row, hr⟩ := exists_mem_of_ne_nil parsedData (by simpa using hem)
      obtain ⟨e, he, _⟩ := exists_of_mem_mapM hp hr
      rw [if_neg hem, if_neg (hal e.1 e.2 (AList.mem_lookup_iff.mpr he)).1]
      exact ⟨_, rfl⟩

theorem workersResult_jsonAnswers (hb : s.setBatches {} data = .ok batches) :
    workersResult (s.jsonAnswers valid data) batches = .ok () ↔ ∀ row ∈ batches.flatten, s.acceptsRow valid data row := by
  rw [workersResult, require_eq_ok, all_eq_true]
  simp only [jsonAnswers, hb, toOption, Option.getD_some, mem_flatten, forall_exists_index, and_imp]
  constructor
  · intro hal row batch hm hr
    obtain ⟨i, hi, rfl⟩ := mem_iff_getElem.mp hm
    have hd := hal (batches[i], i) (mem_zipIdx_iff_getElem?.mpr (getElem?_eq_getElem hi))
    simp only [getD_eq_getElem?_getD, getElem?_eq_getElem hi, Option.getD_some] at hd
    simp at hd
    exact hd _ _ _ hr
  · rintro hal ⟨batch, i⟩ hm
    rw [mem_zipIdx_iff_getElem?] at hm
    simp only [getD_eq_getElem?_getD, hm, Option.getD_some]
    rw [if_pos]
    · rfl
    · rw [all_eq_true]
      exact fun row hr => hal row batch (mem_of_getElem? hm) hr

theorem setBatches_jsonAnswers : s.setBatches (s.jsonAnswers valid data) data = s.setBatches {} data := rfl

section

variable (hb : s.setBatches {} data = .ok batches) (hw : workersResult (s.jsonAnswers valid data) batches = .ok ())
include hb hw

theorem set_of_accepted : s.set (s.jsonAnswers valid data) h data =
    (⟨h.rows.upsert (appliedEntries (s.jsonAnswers valid data) batches), s.cacheAll data h.cache⟩, .ok ()) := by
  simp only [set, setBatches_jsonAnswers, hb, hw]

theorem get_of_set (hl : data.lookup key = some vv) :
    (s.get (s.jsonAnswers valid data) (s.set (s.jsonAnswers valid data) h data).1 key).2 = .ok (some (s.stored key vv)) := by
  rw [set_of_accepted hb hw]
  refine (exists_get_ok s _ key).trans (congrArg _ ?_)
  rw [view_set (setBatches_jsonAnswers.trans hb) hw key, hl]
  rfl

end

theorem acceptsRow_and_given_iff (hl : data.lookup key = some vv) :
    s.acceptsRow valid data (s.location key, s.stored key vv) ∧ (s.stored key vv).value.getD [] = vv.value.getD [] ↔
      s.byteColumn (s.getTable key) ∨ ∀ text, vv.value = some text →
        (keepsBytes (s.getTable key).table = false ∧ text = []) ∨ valid text ∧ s.jsonb text = text := by
  obtain ⟨value, metadata, version⟩ := vv
  simp only [acceptsRow, stored, location, dbValue, hl]
  by_cases hc : s.byteColumn (s.getTable key)
  · simp [hc]
  · by_cases hk : keepsBytes (s.getTable key).table
    · cases value <;> simp [hc, hk]
    · cases value with
      | none => simp [hc, hk]
      | some text => cases text <;> simp [hc, hk]

theorem keepsBytes_of_byteColumn (h : s.byteColumn (s.getTable key)) : keepsBytes (s.getTable key).table := by
  rw [keepsBytes, Bool.or_eq_true, decide_eq_true_iff]
  rw [byteColumn, Bool.or_eq_true, decide_eq_true_iff] at h
  rcases h with ht | hn
  · left
    rw [ht, isSuffixOf_iff_suffix, lifecycleTable]
    exact (suffix_append _ _).trans (suffix_append _ _)
  · right
    rw [getTable] at hn ⊢
    split at hn
    · cases hn
    · split at hn
      · cases hn
      · rw [if_neg (by assumption), if_neg (by assumption)]
        exact (of_decide_eq_true hn).trans (suffix_append _ _).isInfix

theorem givenBack_iff : s.GivenBack valid (s.getTable key) vv.value ↔
    (keepsBytes (s.getTable key).table ∨ isJsonNull vv.value = false) ∧
      (s.byteColumn (s.getTable key) ∨ ∀ text, vv.value = some text →
        (keepsBytes (s.getTable key).table = false ∧ text = []) ∨ valid text ∧ s.jsonb text = text) := by
  rw [GivenBack, or_and_left]
  refine and_congr_left fun _ => ⟨fun h => h.elim (fun hc => .inl (keepsBytes_of_byteColumn hc)) id, .inr⟩

/-- A `Set` and the `Get`s after it give back the same bytes exactly for values that the column does not change. -/
theorem set_get_iff (s : SqlSchema) (valid : Bytes → Bool) (h : Handle) (data : AMap Bytes VersionedValue) :
    s.RoundTrips valid h data ↔ ∀ key vv, data.lookup key = some vv →
      s.batchsize ≠ 0 ∧ (s.getTable key).table.count 0x2e = 1 ∧ s.GivenBack valid (s.getTable key) vv.value := by
  constructor
  · rintro ⟨hok, hg⟩ key vv hl
    obtain ⟨batches, hb, hw, _⟩ := set_of_ok hok
    obtain ⟨hz, hp⟩ := exists_setBatches_iff.mp ⟨batches, hb⟩ key vv hl
    obtain ⟨hd, hn⟩ := exists_parseRow_iff.mp hp
    obtain ⟨vv', hv', he⟩ := hg key vv hl
    rw [get_of_set hb hw hl] at hv'
    cases hv'
    have ha := (workersResult_jsonAnswers hb).mp hw _ ((mem_flatten_setBatches hb).mpr ⟨key, vv, hl, rfl⟩)
    have hgb := (acceptsRow_and_given_iff hl).mp ⟨ha, he⟩
    exact ⟨hz, hd, givenBack_iff.mpr ⟨hn, hgb⟩⟩
  · intro hal
    obtain ⟨batches, hb⟩ := exists_setBatches_iff.mpr fun key vv hl =>
      ⟨(hal key vv hl).1, exists_parseRow_iff.mpr ⟨(hal key vv hl).2.1, (givenBack_iff.mp (hal key vv hl).2.2).1⟩⟩
    have hag := fun key vv hl => (acceptsRow_and_given_iff hl).mpr (givenBack_iff.mp (hal key vv hl).2.2).2
    have hw : workersResult (s.jsonAnswers valid data) batches = .ok () := by
      refine (workersResult_jsonAnswers hb).mpr fun row hr => ?_
      obtain ⟨key, vv, hl, rfl⟩ := (mem_flatten_setBatches hb).mp hr
      exact (hag key vv hl).1
    exact ⟨congrArg Prod.snd (set_of_accepted hb hw), fun key vv hl => ⟨_, get_of_set hb hw hl, (hag key vv hl).2⟩⟩

def jsonKey : Bytes := encodeDataKey (ascii "cc") (ascii "k")

def nullValue : VersionedValue := ⟨some (ascii "null"), [], ⟨1, 0⟩⟩

/-- A JSON null makes the row map nil, and the `Set` panics. -/
theorem null_not_set :
    ¬ channelSchema.RoundTrips (fun _ => true) { rows := fun _ => none } (AList.singleton jsonKey nullValue) := by
  rintro ⟨hok, _⟩
  cases hok

end SqlSchema

/-! ### The cached columns -/

/-- The columns of the tables, and the rows that are there. -/
structure Tables where
  columns : Bytes → List Bytes
  present : TableKey → Bool := fun _ => false

/-- A statement changes the tables, or fails. -/
abbrev Ddl := Tables → Option Tables

/-- Each schema is a transaction; the first that fails ends the call. -/
def execSchemas (tables : Tables) : List (List Ddl) → Tables
  | [] => tables
  | schema :: schemas =>
    match schema.foldlM (fun tables statement => statement tables) tables with
    | none => tables
    | some tables => execSchemas tables schemas

/-- A row of a `Set`, with the names in its map. -/
structure SetRow where
  table : Bytes
  key : Bytes
  names : List Bytes

structure ColumnState where
  tables : Tables
  tableColumnCache : Bytes → Option (List Bytes) := fun _ => none

namespace ColumnState

variable (st : ColumnState)

def filterKeys (table : Bytes) (data : List Bytes) : ColumnState × List Bytes :=
  match st.tableColumnCache table with
  | none =>
    ({ st with tableColumnCache := Function.update st.tableColumnCache table (some (st.tables.columns table)) },
      data.filter fun key => key ∈ st.tables.columns table)
  | some columns => (st, data.filter fun key => key ∈ columns)

def parsedData (st : ColumnState) : List SetRow → ColumnState × List (SetRow × List Bytes)
  | [] => (st, [])
  | row :: rows =>
    let r := st.filterKeys row.table row.names
    let rs := parsedData r.1 rows
    (rs.1, (row, r.2) :: rs.2)

/-- The columns that the statements of a `Set` assign to a row. One that is not there is inserted with its own columns;
for one that is there `DO UPDATE SET` names those of the first row of its table. -/
def assigned (parsed : List (SetRow × List Bytes)) (e : SetRow × List Bytes) : List Bytes :=
  if st.tables.present (e.1.table, e.1.key) then ((parsed.find? fun f => f.1.table = e.1.table).getD e).2 else e.2

end ColumnState

/-- Of a `Set` that fails before its statements, the rows are those before the failure; otherwise `applied` are the rows
whose statements take effect. -/
inductive SchemaCall where
  | exec (schemas : List (List Ddl))
  | set (rows : List SetRow) (applied : Option (TableKey → Bool))

def fixedColumns : List Bytes :=
  [ascii "db_value", ascii "key", ascii "db_metadata", ascii "block_number", ascii "transaction_number"]

/-- A `Set` that succeeds, where `members` has the names in a JSON object. -/
def SqlSchema.setCall (s : SqlSchema) (members : Bytes → List Bytes) (data : List (Bytes × VersionedValue)) : SchemaCall :=
  .set (data.map fun e =>
    let table := (s.getTable e.1).table
    ⟨table, e.1, if keepsBytes table then fixedColumns else fixedColumns ++ members (e.2.value.getD [])⟩)
    (some fun _ => true)

def Tables.setRows (tables : Tables) (rows : List SetRow) (applied : Option (TableKey → Bool)) : Tables :=
  applied.elim tables fun applied => { tables with
    present := fun tk => tables.present tk || applied tk && rows.any fun row => (row.table, row.key) = tk }

namespace ColumnState

variable (st : ColumnState)

def after : SchemaCall → ColumnState
  | .exec schemas => { st with tables := execSchemas st.tables schemas }
  | .set rows applied => { (st.parsedData rows).1 with tables := st.tables.setRows rows applied }

def run (st : ColumnState) (calls : List SchemaCall) : ColumnState :=
  calls.foldl after st

end ColumnState

/-- Every `Set` assigns to each row what it names and its table has as a column at that time. -/
def SetsColumns (tables : Tables) (calls : List SchemaCall) : Prop :=
  ∀ before rows applied rest, calls = before ++ .set rows (some applied) :: rest →
    let st := ColumnState.run { tables } before
    let parsed := (st.parsedData rows).2
    ∀ e ∈ parsed, ∀ name, name ∈ st.assigned parsed e ↔ name ∈ e.1.names ∧ name ∈ st.tables.columns e.1.table

def tablesAfter (tables : Tables) : List SchemaCall → Tables
  | [] => tables
  | .exec schemas :: calls => tablesAfter (execSchemas tables schemas) calls
  | .set rows applied :: calls => tablesAfter (tables.setRows rows applied) calls

def columnsAtFirstUse (table : Bytes) (tables : Tables) : List SchemaCall → Option (List Bytes)
  | [] => none
  | .exec schemas :: calls => columnsAtFirstUse table (execSchemas tables schemas) calls
  | .set rows applied :: calls =>
    if table ∈ rows.map SetRow.table then some (tables.columns table)
    else columnsAtFirstUse table (tables.setRows rows applied) calls

/-- The row of a `Set` whose names decide what is assigned to a row. -/
def namingRow (tables : Tables) (rows : List SetRow) (row : SetRow) : SetRow :=
  if tables.present (row.table, row.key) then (rows.find? fun r => r.table = row.table).getD row else row

namespace ColumnState

variable {st : ColumnState} {table : Bytes}

theorem filterKeys_eq (st : ColumnState) (table : Bytes) (data : List Bytes) :
    st.filterKeys table data = (⟨st.tables, Function.update st.tableColumnCache table
      (some ((st.tableColumnCache table).getD (st.tables.columns table)))⟩,
      data.filter fun key => key ∈ (st.tableColumnCache table).getD (st.tables.columns table)) := by
  unfold filterKeys
  split
  next h => rw [h, Option.getD_none]
  next columns h => rw [h, Option.getD_some, ← h, Function.update_eq_self]

/-- A row with those of its names that the cached columns have. -/
def filtered (st : ColumnState) (row : SetRow) : SetRow × List Bytes :=
  (row, row.names.filter fun key => key ∈ (st.tableColumnCache row.table).getD (st.tables.columns row.table))

theorem parsedData_eq (st : ColumnState) (rows : List SetRow) :
    (st.parsedData rows).2 = rows.map st.filtered ∧ (st.parsedData rows).1.tables = st.tables ∧
    ∀ table, (st.parsedData rows).1.tableColumnCache table =
      if table ∈ rows.map SetRow.table then some ((st.tableColumnCache table).getD (st.tables.columns table))
      else st.tableColumnCache table := by
  induction rows generalizing st with
  | nil => simp [parsedData]
  | cons row rows ih =>
    obtain ⟨hw, hcl, hch⟩ := ih (st.filterKeys row.table row.names).1
    rw [filterKeys_eq] at hw hcl hch
    simp only [parsedData, filterKeys_eq, map_cons]
    refine ⟨?_, hcl, fun table => ?_⟩
    · rw [hw]
      refine congrArg _ (map_congr_left fun row' _ => ?_)
      by_cases ht : row'.table = row.table
      · simp [filtered, ht]
      · simp [filtered, Function.update_of_ne ht]
    · rw [hch]
      by_cases ht : table = row.table
      · simp [ht]
      · simp only [mem_cons, or_iff_right ht, Function.update_of_ne ht]

theorem assigned_eq (st : ColumnState) (rows : List SetRow) (row : SetRow) :
    st.assigned (rows.map st.filtered) (st.filtered row) = (st.filtered (namingRow st.tables rows row)).2 := by
  rw [assigned, namingRow, find?_map]
  change (if st.tables.present (row.table, row.key) then _ else _) = _
  split_ifs
  · change ((rows.find? fun r => r.table = row.table).map st.filtered |>.getD (st.filtered row)).2 = _
    cases rows.find? fun r => r.table = row.table <;> rfl
  · rfl

theorem run_eq (st : ColumnState) (calls : List SchemaCall) :
    (st.run calls).tables = tablesAfter st.tables calls ∧ ∀ table, (st.run calls).tableColumnCache table =
      (st.tableColumnCache table).or (columnsAtFirstUse table st.tables calls) := by
  induction calls generalizing st with
  | nil => simp [run, tablesAfter, columnsAtFirstUse]
  | cons c calls ih =>
    obtain ⟨hcl, hch⟩ := ih (st.after c)
    cases c with
    | exec schemas => exact ⟨hcl, hch⟩
    | set rows applied =>
      obtain ⟨_, _, hch'⟩ := parsedData_eq st rows
      refine ⟨hcl, fun table => (hch table).trans ?_⟩
      rw [columnsAtFirstUse, after]
      dsimp only
      rw [hch']
      by_cases ht : table ∈ rows.map SetRow.table
      · cases st.tableColumnCache table <;> simp [ht]
      · simp [ht]

end ColumnState

theorem table_namingRow (tables : Tables) (rows : List SetRow) (row : SetRow) :
    (namingRow tables rows row).table = row.table := by
  rw [namingRow]
  split_ifs
  · cases hf : rows.find? fun r => r.table = row.table with
    | none => rfl
    | some r => simpa using find?_some hf
  · rfl

/-- The columns are right just if, for each row, those that its naming row has among the columns at the first use of the
table are those that the row itself has among the columns now. -/
theorem setsColumns_iff (tables : Tables) (calls : List SchemaCall) :
    SetsColumns tables calls ↔ ∀ before rows applied rest, calls = before ++ .set rows (some applied) :: rest →
      let now := tablesAfter tables before
      ∀ row ∈ rows, ∀ name,
        name ∈ (namingRow now rows row).names ∧
            name ∈ (columnsAtFirstUse row.table tables before).getD (now.columns row.table) ↔
          name ∈ row.names ∧ name ∈ now.columns row.table := by
  refine forall₅_congr fun before rows applied rest _ => ?_
  obtain ⟨hcl, hch⟩ := ColumnState.run_eq { tables } before
  dsimp only
  rw [(ColumnState.parsedData_eq _ rows).1, forall_mem_map]
  refine forall₃_congr fun row _ name => ?_
  rw [ColumnState.assigned_eq, ColumnState.filtered, mem_filter, decide_eq_true_iff, hcl, table_namingRow, hch]
  rfl

def jsonEntry (key text : String) : Bytes × VersionedValue :=
  (encodeDataKey (ascii "cc") (ascii key), ⟨some (ascii text), [], ⟨1, 0⟩⟩)

def aged : Bytes × VersionedValue := jsonEntry "k" "\x7b\"age\":7\x7d"

def named : Bytes × VersionedValue := jsonEntry "j" "\x7b\"name\":8\x7d"

def exampleMembers (text : Bytes) : List Bytes :=
  if text = ascii "\x7b\"age\":7\x7d" then [ascii "age"] else [ascii "name"]

def addAge : Ddl := fun tables => some { tables with columns := fun table => tables.columns table ++ [ascii "age"] }

def setEntries (data : List (Bytes × VersionedValue)) : SchemaCall :=
  SqlSchema.channelSchema.setCall exampleMembers data

/-- A column that was added is not set; and a row that is there does not get a column that the first row does not name. -/
theorem added_column_not_set :
    ¬ SetsColumns { columns := fun _ => fixedColumns } [setEntries [aged], .exec [[addAge]], setEntries [aged]] ∧
      ¬ SetsColumns { columns := fun _ => fixedColumns ++ [ascii "age", ascii "name"] }
        [setEntries [named], setEntries [aged, named]] := by
  constructor
  · intro h
    have hs := h [setEntries [aged], .exec [[addAge]]] _ _ [] rfl _ (.head _) (ascii "age")
    revert hs
    decide
  · intro h
    have hs := h [setEntries [named]] _ _ [] rfl _ (.tail _ (.head _)) (ascii "name")
    revert hs
    decide

end Drunix.Ledger.StateSql
