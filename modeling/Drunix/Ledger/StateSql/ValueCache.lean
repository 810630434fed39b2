import Drunix.Ledger.StateSql.SqlClient

namespace Drunix.Ledger.StateSql

open Lib Proto Outcome Option

inductive Call where
  | set (data : AMap Bytes VersionedValue)
  | delete (keys : List Bytes)
  | get (key : Bytes)

abbrev Contents := Bytes → Option VersionedValue

def Contents.after (m : Contents) : Call → Outcome Unit Unit → Contents
  | .set data, .ok _ => fun key => (data.lookup key).or (m key)
  | .delete keys, .ok _ => fun key => if key ∈ keys then none else m key
  | _, _ => m

/-- A handle in use, with the value, metadata and version of the last successful `Set` of each key that
was not followed by a successful `Delete`. -/
structure Session where
  handle : Handle
  lastSet : Contents

namespace SqlSchema

section

variable (s : SqlSchema)

def exec (answers : SqlAnswers) (h : Handle) : Call → Handle × Outcome Unit Unit
  | .set data => s.set answers h data
  | .delete keys => s.delete answers h keys
  | .get key => ((s.get answers h key).1, (fun _ => ()) <$> (s.get answers h key).2)

def step (x : Session) (c : SqlAnswers × Call) : Option Session :=
  let r := s.exec c.1 x.handle c.2
  if r.2 = .panic then none else some ⟨r.1, x.lastSet.after c.2 r.2⟩

def opened (rows : Rows) : Session :=
  ⟨{ rows }, fun key => rows (s.location key)⟩

def Always (P : Session → Prop) : Session → List (SqlAnswers × Call) → Prop
  | x, [] => P x
  | x, c :: cs => P x ∧ ∀ x', s.step x c = some x' → Always P x' cs

def AllCalls (P : Handle → SqlAnswers × Call → Prop) : Session → List (SqlAnswers × Call) → Prop
  | _, [] => True
  | x, c :: cs => P x.handle c ∧ ∀ x', s.step x c = some x' → AllCalls P x' cs

def GetsLastSet (x : Session) : Prop :=
  ∀ answers key v, (s.get answers x.handle key).2 = .ok v → v = x.lastSet key

/-- A successful `Set` writes values that the column gives back unchanged, a successful `Delete` no key
of the value cache, and the statements of a call that fails only keys of the value cache or rows that
are there already. -/
def CacheSafe (h : Handle) (c : SqlAnswers × Call) : Prop :=
  match c.2 with
  | .get _ => True
  | .set data => ∀ batches, s.setBatches c.1 data = .ok batches →
      if workersResult c.1 batches = .ok () then
        ∀ key vv, data.lookup key = some vv → s.dbValue (s.getTable key) vv.value = vv.value
      else ∀ row ∈ appliedEntries c.1 batches, s.cached h row.1.2 ≠ none ∨ h.rows row.1 = some row.2
  | .delete keys => ∀ batches, s.deleteBatches c.1 keys = .ok batches →
      if workersResult c.1 batches = .ok () then ∀ key ∈ keys, s.cached h key = none
      else ∀ tk ∈ appliedEntries c.1 batches, s.cached h tk.2 ≠ none ∨ h.rows tk = none

def view (h : Handle) : Contents := fun key =>
  (s.cached h key).or (h.rows (s.location key))

end

variable {s : SqlSchema} {answers : SqlAnswers} {h : Handle} {key : Bytes} {x : Session} {lastSet : Contents}
  {c : SqlAnswers × Call}

theorem get_cases (s : SqlSchema) (answers : SqlAnswers) (h : Handle) (key : Bytes) :
    s.get answers h key = (h, .err ()) ∨ s.get answers h key = (h, .ok (s.view h key)) ∨
      ∃ vv, s.cached h key = none ∧ h.rows (s.location key) = some vv ∧
        s.get answers h key =
          ({ h with cache := if (s.getTable key).cacheEnabled then Function.update h.cache key (some vv) else h.cache },
            .ok (some vv)) := by
  rw [get, view]
  simp only [useTable, require]
  by_cases hu : (s.getTable key).created.all answers.createIfNotExists
  · rw [if_pos hu]
    cases hc : s.cached h key with
    | some vv => exact .inr (.inl rfl)
    | none =>
      by_cases hr : answers.rows
      · rw [if_pos hr]
        cases hrw : h.rows (s.location key) with
        | none => exact .inr (.inl rfl)
        | some vv => exact .inr (.inr ⟨vv, rfl, rfl, rfl⟩)
      · rw [if_neg hr]
        exact .inl rfl
  · rw [if_neg hu]
    exact .inl rfl

theorem get_ok_view {v : Option VersionedValue} (hr : (s.get answers h key).2 = .ok v) : v = s.view h key := by
  rcases get_cases s answers h key with hg | hg | ⟨vv, hc, hrw, hg⟩
  · rw [hg] at hr
    cases hr
  · rw [hg] at hr
    cases hr
    rfl
  · rw [hg] at hr
    cases hr
    rw [view, hc, hrw, none_or]

theorem exists_get_ok (s : SqlSchema) (h : Handle) (key : Bytes) : (s.get {} h key).2 = .ok (s.view h key) := by
  have hu : useTable {} (s.getTable key) = .ok () := by
    rw [useTable]
    cases (s.getTable key).created <;> rfl
  simp only [get, hu, view]
  cases s.cached h key with
  | some vv => rfl
  | none =>
    cases h.rows (s.location key) with
    | none => rfl
    | some vv => rfl

theorem getsLastSet_iff : s.GetsLastSet x ↔ s.view x.handle = x.lastSet := by
  constructor
  · intro hx
    funext key
    exact hx {} key _ (exists_get_ok s x.handle key)
  · intro hvw answers key v hr
    rw [get_ok_view hr, hvw]

theorem view_get (s : SqlSchema) (answers : SqlAnswers) (h : Handle) (key : Bytes) :
    s.view (s.get answers h key).1 = s.view h := by
  rcases get_cases s answers h key with hg | hg | ⟨vv, hc, hr, hg⟩
  · rw [hg]
  · rw [hg]
  · rw [hg]
    funext key'
    simp only [view, cached]
    by_cases hk : key' = key
    · subst hk
      rw [cached] at hc
      by_cases he : (s.getTable key').cacheEnabled
      · rw [if_pos he] at hc
        simp [he, hc, hr]
      · simp [he]
    · by_cases he : (s.getTable key).cacheEnabled
      · simp [he, Function.update_of_ne hk]
      · simp [he]

theorem view_withRows_iff {rows : Rows} :
    s.view { h with rows } = s.view h ↔ ∀ key, s.cached h key ≠ none ∨ rows (s.location key) = h.rows (s.location key) := by
  rw [funext_iff]
  apply forall_congr'
  intro key
  change (s.cached h key).or _ = (s.cached h key).or _ ↔ _
  cases s.cached h key <;> simp

theorem table_of_cacheEnabled (he : (s.getTable key).cacheEnabled) : (s.getTable key).table = s.lifecycleTable := by
  rw [getTable] at he ⊢
  split at he
  · cases he
  · split at he
    · rw [if_neg (by assumption), if_pos (by assumption)]
    · cases he

theorem stored_eq_iff {vv : VersionedValue} :
    s.stored key vv = vv ↔ s.dbValue (s.getTable key) vv.value = vv.value := by
  obtain ⟨value, metadata, ver⟩ := vv
  simp [stored]

theorem stored_of_lifecycleTable (ht : (s.getTable key).table = s.lifecycleTable) (vv : VersionedValue) :
    s.stored key vv = vv := by
  rw [stored_eq_iff, dbValue, if_pos]
  simp [byteColumn, ht]

section

variable {data : AMap Bytes VersionedValue} {batches : List (List (TableKey × VersionedValue))}

theorem cached_cacheAll (rows : Rows) :
    s.cached ⟨rows, s.cacheAll data h.cache⟩ key =
      if (s.getTable key).cacheEnabled then (data.lookup key).or (h.cache key) else none := by
  simp only [cached, cacheAll]
  by_cases he : (s.getTable key).cacheEnabled
  · rw [if_pos he, if_pos he, if_pos he]
  · rw [if_neg he, if_neg he]

theorem view_set (hbatches : s.setBatches answers data = .ok batches) (hd : workersResult answers batches = .ok ())
    (key : Bytes) :
    s.view ⟨h.rows.upsert (appliedEntries answers batches), s.cacheAll data h.cache⟩ key =
      ((data.lookup key).map (s.stored key)).or (s.view h key) := by
  rw [appliedEntries_of_done hd, view, cached_cacheAll]
  cases hl : data.lookup key with
  | none =>
    have hr : h.rows.upsert batches.flatten (s.location key) = h.rows (s.location key) := by
      apply Rows.upsert_of_notMem
      intro e he htk
      obtain ⟨key', vv, hvv, rfl⟩ := (mem_flatten_setBatches hbatches).mp he
      have hk : key' = key := congrArg Prod.snd htk
      rw [hk, hl] at hvv
      cases hvv
    simp only [hr]
    rfl
  | some vv =>
    have hr : h.rows.upsert batches.flatten (s.location key) = some (s.stored key vv) := by
      rw [← appliedEntries_of_done hd]
      apply upsert_applied hbatches
      rw [appliedEntries_of_done hd]
      exact (mem_flatten_setBatches hbatches).mpr ⟨key, vv, hl, rfl⟩
    simp only [hr, map_some, some_or]
    split_ifs with hen
    · rw [some_or, stored_of_lifecycleTable (table_of_cacheEnabled hen)]
    · rw [none_or]

/-- Rows written by a `Set` that fails go unseen just when they are cached or were there before. -/
theorem view_set_failed_iff (hbatches : s.setBatches answers data = .ok batches) :
    s.view ⟨h.rows.upsert (appliedEntries answers batches), h.cache⟩ = s.view h ↔
      ∀ row ∈ appliedEntries answers batches, s.cached h row.1.2 ≠ none ∨ h.rows row.1 = some row.2 := by
  rw [view_withRows_iff]
  constructor
  · intro hk row hrw
    have hu : h.rows.upsert (appliedEntries answers batches) row.1 = some row.2 := upsert_applied hbatches hrw
    obtain ⟨key, vv, _, rfl⟩ := (mem_flatten_setBatches hbatches).mp (mem_of_mem_appliedEntries hrw)
    rcases hk key with hc | hsm
    · exact .inl hc
    · exact .inr (hsm ▸ hu)
  · intro hr key
    by_cases hm : ∃ vv, (s.location key, vv) ∈ appliedEntries answers batches
    · obtain ⟨vv, hvv⟩ := hm
      rw [upsert_applied hbatches hvv, eq_comm]
      exact hr _ hvv
    · right
      apply Rows.upsert_of_notMem
      intro e he htk
      exact hm ⟨e.2, htk ▸ he⟩

end

section

variable {keys : List Bytes} {batches : List (List TableKey)}

section

variable (hbatches : s.deleteBatches answers keys = .ok batches)
include hbatches

theorem view_delete_failed_iff : s.view { h with rows := h.rows.delete (appliedEntries answers batches) } = s.view h ↔
      ∀ tk ∈ appliedEntries answers batches, s.cached h tk.2 ≠ none ∨ h.rows tk = none := by
  rw [view_withRows_iff]
  constructor
  · intro hk tk htk
    have hd : h.rows.delete (appliedEntries answers batches) tk = none := if_pos htk
    obtain ⟨key, _, rfl⟩ := (mem_flatten_deleteBatches hbatches).mp (mem_of_mem_appliedEntries htk)
    rcases hk key with hc | hsm
    · exact .inl hc
    · exact .inr (hsm ▸ hd)
  · intro hr key
    rw [Rows.delete]
    split_ifs with htk
    · rw [eq_comm]
      exact hr _ htk
    · exact .inr rfl

theorem view_delete (hd : workersResult answers batches = .ok ()) (key : Bytes) :
    s.view { h with rows := h.rows.delete (appliedEntries answers batches) } key =
      if key ∈ keys then s.cached h key else s.view h key := by
  have hm : s.location key ∈ batches.flatten ↔ key ∈ keys := by
    rw [mem_flatten_deleteBatches hbatches]
    constructor
    · rintro ⟨key', hk', htk⟩
      have hk : key = key' := congrArg Prod.snd htk
      exact hk ▸ hk'
    · intro hk
      exact ⟨key, hk, rfl⟩
  simp only [appliedEntries_of_done hd, view, Rows.delete]
  by_cases hk : key ∈ keys
  · rw [if_pos hk, if_pos (hm.mpr hk), or_none]
    rfl
  · rw [if_neg hk, if_neg fun htk => hk (hm.mp htk)]
    rfl

end

end

theorem getsLastSet_set_iff {data : AMap Bytes VersionedValue} (hx : s.view h = lastSet) :
    ((s.exec answers h (.set data)).2 ≠ .panic →
      s.view (s.exec answers h (.set data)).1 = lastSet.after (.set data) (s.exec answers h (.set data)).2) ↔
      s.CacheSafe h (answers, .set data) := by
  simp only [exec, CacheSafe]
  rcases set_cases s answers h data with ⟨hb, hst⟩ | ⟨hb, hst⟩ | ⟨batches, hb, hst⟩ <;> rw [hst, hb]
  · simp
  · simpa [Contents.after] using hx
  · simp only [ok.injEq, forall_eq']
    rcases workersResult_cases answers batches with hw | hw <;>
      simp only [hw, if_pos, ne_eq, reduceCtorEq, if_false, not_false_eq_true, forall_const, Contents.after, ← hx]
    · rw [funext_iff]
      apply forall_congr'
      intro key
      rw [view_set hb hw]
      cases hl : data.lookup key with
      | none => simp
      | some vv => simp [stored_eq_iff]
    · exact view_set_failed_iff hb

theorem getsLastSet_delete_iff {keys : List Bytes} (hx : s.view h = lastSet) :
    ((s.exec answers h (.delete keys)).2 ≠ .panic →
      s.view (s.exec answers h (.delete keys)).1 = lastSet.after (.delete keys) (s.exec answers h (.delete keys)).2) ↔
      s.CacheSafe h (answers, .delete keys) := by
  simp only [exec, CacheSafe]
  rcases delete_cases s answers h keys with ⟨hb, hd⟩ | ⟨hb, hd⟩ | ⟨batches, hb, hd⟩ <;> rw [hd, hb]
  · simp
  · simpa [Contents.after] using hx
  · simp only [ok.injEq, forall_eq']
    rcases workersResult_cases answers batches with hw | hw <;>
      simp only [hw, if_pos, ne_eq, reduceCtorEq, if_false, not_false_eq_true, forall_const, Contents.after, ← hx]
    · rw [funext_iff]
      apply forall_congr'
      intro key
      rw [view_delete hb hw]
      by_cases hk : key ∈ keys <;> simp [hk]
    · exact view_delete_failed_iff hb

theorem forall_step_iff {P : Session → Prop} :
    (∀ x', s.step x c = some x' → P x') ↔
      ((s.exec c.1 x.handle c.2).2 ≠ .panic →
        P ⟨(s.exec c.1 x.handle c.2).1, x.lastSet.after c.2 (s.exec c.1 x.handle c.2).2⟩) := by
  simp only [step]
  by_cases hpn : (s.exec c.1 x.handle c.2).2 = .panic
  · simp [hpn]
  · simp [hpn]

/-- A call keeps `Get` right, if it returns, just when it is safe for the cache. -/
theorem getsLastSet_step_iff (hx : s.GetsLastSet x) :
    (∀ x', s.step x c = some x' → s.GetsLastSet x') ↔ s.CacheSafe x.handle c := by
  rw [getsLastSet_iff] at hx
  rw [forall_step_iff]
  simp only [getsLastSet_iff]
  obtain ⟨answers, call⟩ := c
  cases call with
  | set data => exact getsLastSet_set_iff hx
  | delete keys => exact getsLastSet_delete_iff hx
  | get key =>
    simp only [CacheSafe, iff_true]
    intro _
    exact (view_get s answers x.handle key).trans hx

theorem always_getsLastSet_iff (hx : s.GetsLastSet x) (calls : List (SqlAnswers × Call)) :
    s.Always s.GetsLastSet x calls ↔ s.AllCalls s.CacheSafe x calls := by
  induction calls generalizing x with
  | nil => simp [Always, AllCalls, hx]
  | cons c calls ih =>
    rw [AllCalls, ← getsLastSet_step_iff hx]
    constructor
    · rintro ⟨_, hr⟩
      have hn : ∀ x', s.step x c = some x' → s.GetsLastSet x' := by
        intro x' hst
        cases calls with
        | nil => exact hr x' hst
        | cons c' calls => exact (hr x' hst).1
      exact ⟨hn, fun x' hst => (ih (hn x' hst)).mp (hr x' hst)⟩
    · rintro ⟨hn, hr⟩
      exact ⟨hx, fun x' hst => (ih (hn x' hst)).mpr (hr x' hst)⟩

/-- Over every sequence of calls on a handle, `Get` returns what was last set, if and only if every call
is safe for the cache. -/
theorem get_returns_lastSet_iff (s : SqlSchema) (rows : Rows) (calls : List (SqlAnswers × Call)) :
    s.Always s.GetsLastSet (s.opened rows) calls ↔ s.AllCalls s.CacheSafe (s.opened rows) calls := by
  apply always_getsLastSet_iff
  rw [getsLastSet_iff]
  funext key
  simp [view, cached, opened]

def channelSchema : SqlSchema := ⟨ascii "ch", ascii "peer", 2, id⟩

def definitionKey : Bytes := encodeDataKey (ascii "_lifecycle") (ascii "k")

def definition : VersionedValue := ⟨some (ascii "v"), [], ⟨1, 0⟩⟩

def setAndDeleted : List (SqlAnswers × Call) :=
  [({}, .set (AList.singleton definitionKey definition)), ({}, .delete [definitionKey])]

theorem deleted_key_served :
    ¬ channelSchema.Always channelSchema.GetsLastSet (channelSchema.opened fun _ => none) setAndDeleted := by
  rintro ⟨_, hst⟩
  obtain ⟨_, hd⟩ := hst _ rfl
  have hg : channelSchema.GetsLastSet _ := hd _ rfl
  exact absurd (hg {} definitionKey (some definition) rfl) (by decide)

end SqlSchema

end Drunix.Ledger.StateSql
