import Drunix.Ledger.Validation.Serializability

namespace Drunix.Ledger.Validation

open Lib Proto List

/-- `dbItem` and `updatesItem`, each with what its iterator still has. -/
structure CombinedIterator where
  dbItems : List (Bytes × VersionedValue)
  updatesItems : List (Bytes × VersionedValue)
  endKeyServed : Bool := false

/-- The item with the smaller key, and the cursors behind it; of two items with the same key it is that
of the updates, and both cursors move. -/
def selectItem : List (Bytes × VersionedValue) → List (Bytes × VersionedValue) →
    Option ((Bytes × VersionedValue) × List (Bytes × VersionedValue) × List (Bytes × VersionedValue))
  | [], [] => none
  | d :: db, [] => some (d, db, [])
  | [], e :: upd => some (e, [], upd)
  | d :: db, e :: upd =>
    if d.1 < e.1 then some (d, db, e :: upd)
    else if e.1 < d.1 then some (e, d :: db, upd)
    else some (e, db, upd)

variable {db upd : List (Bytes × VersionedValue)} {x : Bytes × VersionedValue}

theorem selectItem_eq_some {db' upd' : List (Bytes × VersionedValue)} (h : selectItem db upd = some (x, db', upd')) :
    unionRight db upd = x :: unionRight db' upd' ∧ db'.length + upd'.length < db.length + upd.length := by
  rw [selectItem.eq_def] at h
  split at h
  · cases h
  · cases h
    cases db' <;> simp [unionRight]
  · cases h
    simp [unionRight]
  · next d db e upd =>
      rw [unionRight]
      split_ifs at h ⊢ with hlt hgt <;> (cases h; simp <;> omega)

theorem selectItem_eq_none (h : selectItem db upd = none) : unionRight db upd = [] := by
  rw [selectItem.eq_def] at h
  split at h
  · rw [unionRight]
  · cases h
  · cases h
  · split_ifs at h

section

variable (store : StateStore) (u : PublicAndHashUpdates) (ns startKey endKey : Bytes) (includeEndKey : Bool)

def newCombinedIterator : CombinedIterator where
  dbItems := store.getStateRangeScan ns startKey endKey
  updatesItems := getRangeScan u ns startKey endKey

namespace CombinedIterator

def serveEndKeyIfNeeded (itr : CombinedIterator) : Option (Bytes × VersionedValue) × CombinedIterator :=
  if !includeEndKey || itr.endKeyServed then (none, itr)
  else
    (((u.publicUpdates.lookup (ns, endKey)).or (store.db (encodeDataKey ns endKey))).bind fun vv =>
      if isDelete vv then none else some (endKey, ⟨vv.value, [], vv.version⟩), { itr with endKeyServed := true })

/-- `Next`, which calls itself where the selected item is a deletion. -/
def next (itr : CombinedIterator) : Option (Bytes × VersionedValue) × CombinedIterator :=
  match _h : selectItem itr.dbItems itr.updatesItems with
  | none => itr.serveEndKeyIfNeeded store u ns endKey includeEndKey
  | some (x, db, upd) =>
    if isDelete x.2 then next { itr with dbItems := db, updatesItems := upd }
    else (some x, { itr with dbItems := db, updatesItems := upd })
termination_by itr.dbItems.length + itr.updatesItems.length
decreasing_by exact (selectItem_eq_some _h).2

def results (itr : CombinedIterator) (n : Nat) : Option (Bytes × VersionedValue) :=
  (next store u ns endKey includeEndKey ((fun itr => (next store u ns endKey includeEndKey itr).2)^[n] itr)).1

def remaining (itr : CombinedIterator) : List (Bytes × VersionedValue) :=
  (unionRight itr.dbItems itr.updatesItems).filter (fun e => !isDelete e.2) ++
    if includeEndKey ∧ !itr.endKeyServed then
      ((store.state.update u (.pub ns endKey)).map fun vv => (endKey, ⟨vv.value, [], vv.version⟩)).toList
    else []

variable {itr : CombinedIterator}

theorem remaining_of_selectItem (h : selectItem itr.dbItems itr.updatesItems = some (x, db, upd)) :
    itr.remaining store u ns endKey includeEndKey = (if isDelete x.2 then [] else [x]) ++
      ({ itr with dbItems := db, updatesItems := upd } : CombinedIterator).remaining store u ns endKey includeEndKey := by
  rw [remaining, remaining, (selectItem_eq_some h).1, filter_cons]
  cases isDelete x.2 <;> simp

theorem remaining_of_selectItem_eq_none (h : selectItem itr.dbItems itr.updatesItems = none) :
    (itr.serveEndKeyIfNeeded store u ns endKey includeEndKey).1 =
        (itr.remaining store u ns endKey includeEndKey).head? ∧
      (itr.serveEndKeyIfNeeded store u ns endKey includeEndKey).2.remaining store u ns endKey includeEndKey =
        (itr.remaining store u ns endKey includeEndKey).tail := by
  have hnil := selectItem_eq_none h
  rw [serveEndKeyIfNeeded]
  cases includeEndKey <;> cases hs : itr.endKeyServed <;> simp [remaining, hnil, hs, update_pub]
  cases (u.publicUpdates.lookup (ns, endKey)).or (store.db (encodeDataKey ns endKey)) with
  | none => simp
  | some vv => cases hd : isDelete vv <;> simp [hd, Option.filter]

/-- A call of `Next` returns the first item of what remains and leaves the others. -/
theorem next_spec (itr : CombinedIterator) :
    (itr.next store u ns endKey includeEndKey).1 = (itr.remaining store u ns endKey includeEndKey).head? ∧
      (itr.next store u ns endKey includeEndKey).2.remaining store u ns endKey includeEndKey =
        (itr.remaining store u ns endKey includeEndKey).tail := by
  fun_induction next with
  | case1 itr h => exact remaining_of_selectItem_eq_none store u ns endKey includeEndKey h
  | case2 itr x db upd h hd ih =>
    rw [remaining_of_selectItem store u ns endKey includeEndKey h, if_pos hd]
    exact ih
  | case3 itr x db upd h hd =>
    rw [remaining_of_selectItem store u ns endKey includeEndKey h, if_neg hd]
    exact ⟨rfl, rfl⟩

theorem results_eq_getElem? (itr : CombinedIterator) (n : Nat) :
    itr.results store u ns endKey includeEndKey n = (itr.remaining store u ns endKey includeEndKey)[n]? := by
  induction n generalizing itr with
  | zero => rw [results, Function.iterate_zero_apply, (next_spec ..).1, head?_eq_getElem?]
  | succ n ih =>
    exact (ih _).trans (by rw [(next_spec ..).2, getElem?_tail])

end CombinedIterator

def InClosedRange (startKey endKey : Bytes) (includeEndKey : Bool) (key : Bytes) : Prop :=
  InRange startKey endKey key ∨ includeEndKey ∧ key = endKey

/-- `Next` returns the entries of the range in the state with the updates of the block, in the order of
their keys, and then nothing. -/
theorem combinedIterator_next_exact (hend : includeEndKey → endKey = [] → store.state.update u (.pub ns []) = none) :
    ∃ l : List (Bytes × VersionedValue),
      (∀ n, (newCombinedIterator store u ns startKey endKey).results store u ns endKey includeEndKey n = l[n]?) ∧
      KeySorted l ∧
      ∀ key value version, (∃ md, (key, ⟨value, md, version⟩) ∈ l) ↔ InClosedRange startKey endKey includeEndKey key ∧
        ∃ md, store.state.update u (.pub ns key) = some ⟨value, md, version⟩ := by
  refine ⟨_, fun n => CombinedIterator.results_eq_getElem? .., ?_⟩
  have he : Enumerates ((unionRight (store.getStateRangeScan ns startKey endKey)
      (getRangeScan u ns startKey endKey)).filter fun e => !isDelete e.2)
      (fun key => store.state.update u (.pub ns key)) (InRange startKey endKey) := by
    rw [funext (update_pub store u ns)]
    exact ((store.scan_enumerates ns startKey endKey).unionRight
      (getRangeScan_enumerates u ns startKey endKey)).filter fun vv => !isDelete vv
  have hsr : ∀ key vv, (key, vv) ∈ (if includeEndKey ∧ !(newCombinedIterator store u ns startKey endKey).endKeyServed then
      ((store.state.update u (.pub ns endKey)).map fun vv => (endKey, (⟨vv.value, [], vv.version⟩ : VersionedValue))).toList
      else []) ↔ includeEndKey ∧ key = endKey ∧
        ∃ md, vv.metadata = [] ∧ store.state.update u (.pub ns endKey) = some ⟨vv.value, md, vv.version⟩ := by
    rintro key ⟨value, md, version⟩
    rcases store.state.update u (.pub ns endKey) with _ | ⟨value', md', version'⟩ <;>
      cases includeEndKey <;> simp [newCombinedIterator]
    grind
  refine ⟨?_, fun key value version => ?_⟩
  · refine pairwise_append.mpr ⟨he.sorted, ?_, ?_⟩
    · split_ifs
      · cases store.state.update u (.pub ns endKey) <;> simp
      · exact List.Pairwise.nil
    · rintro ⟨key, vv⟩ ha ⟨key', vv'⟩ hb
      obtain ⟨hi, rfl, md, -, hst⟩ := (hsr key' vv').mp hb
      rcases ((he.mem_iff key vv).mp ha).1.2 with rfl | hlt
      · rw [hend hi rfl] at hst
        cases hst
      · exact hlt
  · constructor
    · rintro ⟨md, hm⟩
      rcases mem_append.mp hm with hm | hm
      · obtain ⟨hrn, hst⟩ := (he.mem_iff _ _).mp hm
        exact ⟨.inl hrn, md, hst⟩
      · obtain ⟨hi, rfl, md, -, hst⟩ := (hsr _ _).mp hm
        exact ⟨.inr ⟨hi, rfl⟩, md, hst⟩
    · rintro ⟨hrn | ⟨hi, rfl⟩, md, hst⟩
      · exact ⟨md, mem_append_left _ ((he.mem_iff _ _).mpr ⟨hrn, hst⟩)⟩
      · exact ⟨[], mem_append_right _ ((hsr _ _).mpr ⟨hi, rfl, md, rfl, hst⟩)⟩

end

def emptyKeyUpdates : PublicAndHashUpdates :=
  { newPubAndHashUpdates with
    publicUpdates := (AList.insert (ascii "n", []) ⟨some [1], [], ⟨1, 0⟩⟩ ∅).insert (ascii "n", ascii "a")
      ⟨some [2], [], ⟨1, 1⟩⟩ }

theorem combinedIterator_next_exact_to_a :
    ∃ l : List (Bytes × VersionedValue), KeySorted l ∧ ∀ n, (newCombinedIterator .empty emptyKeyUpdates (ascii "n") []
      (ascii "a")).results .empty emptyKeyUpdates (ascii "n") (ascii "a") true n = l[n]? := by
  obtain ⟨l, hl, hsr, -⟩ := combinedIterator_next_exact .empty emptyKeyUpdates (ascii "n") [] (ascii "a") true
    fun _ h => absurd h (by decide)
  exact ⟨l, hsr, hl⟩

/-- An open range whose end is included has the empty key at both ends. -/
theorem empty_key_served_twice :
    (newCombinedIterator .empty emptyKeyUpdates (ascii "n") [] []).results .empty emptyKeyUpdates (ascii "n") [] true 0 =
        some ([], ⟨some [1], [], ⟨1, 0⟩⟩) ∧
      (newCombinedIterator .empty emptyKeyUpdates (ascii "n") [] []).results .empty emptyKeyUpdates (ascii "n") [] true 2 =
        some ([], ⟨some [1], [], ⟨1, 0⟩⟩) := by
  simp only [CombinedIterator.results_eq_getElem?, CombinedIterator.remaining, newCombinedIterator, StateStore.empty,
    unionRight]
  decide

end Drunix.Ledger.Validation
