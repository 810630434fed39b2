import Drunix.Ledger.Expiry.PurgeMgr

namespace Drunix.Ledger.Reconciliation

open Lib Proto Vanilla Expiry List

/-! ### Purged keys of a collection -/

section

variable (sha256 : Bytes → Bytes) (wire : Wire Bytes KVRWSet) (markers : AMap CompositeKey Version)

/-- `RemoveAppInitiatedPurgesUsingReconMarker`, for the key hashes that are not purged. -/
def removeAppInitiatedPurges (p : Bytes → Bool) (kvHashes : AMap Bytes Bytes) : AMap Bytes Bytes :=
  kvHashes.filterMap fun k v => if p k then some v else none

def valueHash (kvWrite : KVWrite) : Bytes :=
  if kvWrite.isDelete then [] else sha256 kvWrite.value

def kvHashesOf (hashes : List (Bytes × Bytes)) : AMap Bytes Bytes :=
  hashes.foldl (fun m e => m.insert e.1 e.2) ∅

def hashedCollection (txRWSet : TxRwSet) (ns coll : Bytes) : Option CollHashedRwSet :=
  ((txRWSet.nsRwSets.filter fun n => n.nameSpace = ns).flatMap NsRwSet.collHashedRwSets).find? fun c =>
    c.collectionName = coll

def retrieveCollKVHashes (txRWSet : TxRwSet) (ns coll : Bytes) : AMap Bytes Bytes :=
  (hashedCollection txRWSet ns coll).elim ∅ fun c =>
    kvHashesOf (c.hashedRwSet.hashedWrites.map fun h => (h.keyHash, h.valueHash))

def matchWrites : List KVWrite → AMap Bytes Bytes → Option (List KVWrite × AMap Bytes Bytes)
  | [], trimmed => some ([], trimmed)
  | kv :: pvtKVs, trimmed =>
    match trimmed.lookup (sha256 kv.key) with
    | none => matchWrites pvtKVs trimmed
    | some expectedValueHash =>
      if expectedValueHash = sha256 kv.value then
        (matchWrites pvtKVs (trimmed.erase (sha256 kv.key))).map fun r => (kv :: r.1, r.2)
      else none

def checkedAsWhole (collWSHash : Option Bytes) (kvHashes trimmed : AMap Bytes Bytes) (pvtKVs : List KVWrite) : Bool :=
  collWSHash.isSome && trimmed.entries.length = kvHashes.entries.length && pvtKVs.length = kvHashes.entries.length

/-- `validateAndRemovePurgedKeys` when the purged hashes are removed; a collection to be skipped is `none`. -/
def validateTrimmed (collPvtProto : CollectionPvtReadWriteSet) (kvHashes trimmed : AMap Bytes Bytes)
    (collWSHash : Option Bytes) : Option CollectionPvtReadWriteSet :=
  if trimmed.entries.length = 0 then some ⟨collPvtProto.collectionName, []⟩
  else do
    let collPvtWS ← wire.unmarshal collPvtProto.rwset
    if checkedAsWhole collWSHash kvHashes trimmed collPvtWS.writes then
      if collWSHash = some (sha256 collPvtProto.rwset) then some collPvtProto else none
    else if collPvtWS.writes.length < trimmed.entries.length then none
    else do
      let (finalPvtKVs, rest) ← matchWrites sha256 collPvtWS.writes trimmed
      if 0 < rest.entries.length then none
      else some ⟨collPvtProto.collectionName, wire.marshal { writes := finalPvtKVs }⟩

def validateAndRemovePurgedKeys (collPvtProto : CollectionPvtReadWriteSet) (kvHashes : AMap Bytes Bytes)
    (collWSHash : Option Bytes) (ns : Bytes) (keyHt : Version) : Option CollectionPvtReadWriteSet :=
  validateTrimmed sha256 wire collPvtProto kvHashes
    (removeAppInitiatedPurges (unpurged markers ns collPvtProto.collectionName keyHt) kvHashes) collWSHash

end

section

variable {sha256 : Bytes → Bytes} {ws final : List KVWrite} {t t' : AMap Bytes Bytes}

theorem matchWrites_spec (h : matchWrites sha256 ws t = some (final, t')) :
    final.Sublist ws ∧ (∀ w ∈ final, t.lookup (sha256 w.key) ≠ none) ∧
      ∀ k, t'.lookup k = if k ∈ ws.map (fun w => sha256 w.key) then none else t.lookup k := by
  induction ws generalizing t final with
  | nil =>
    cases h
    exact ⟨.slnil, fun w hw => absurd hw not_mem_nil, fun k => rfl⟩
  | cons kv ws ih =>
    have hmm : ∀ k, k ≠ sha256 kv.key →
        (k ∈ (kv :: ws).map (fun w => sha256 w.key) ↔ k ∈ ws.map fun w => sha256 w.key) := by
      intro k hk
      rw [map_cons, mem_cons, or_iff_right hk]
    rw [matchWrites] at h
    cases hl : t.lookup (sha256 kv.key) with
    | none =>
      rw [hl] at h
      obtain ⟨hsub, hsm, hr⟩ := ih h
      refine ⟨hsub.cons kv, hsm, fun k => ?_⟩
      by_cases hk : k = sha256 kv.key
      · rw [hr, hk, hl, ite_self, ite_self]
      · rw [hr, if_congr (hmm k hk) rfl rfl]
    | some expected =>
      rw [hl] at h
      obtain ⟨⟨final', rest⟩, hm, heq⟩ := Option.map_eq_some_iff.mp (Option.ite_none_right_eq_some.mp h).2
      cases heq
      obtain ⟨hsub, hsm, hr⟩ := ih hm
      refine ⟨hsub.cons_cons kv, ?_, fun k => ?_⟩
      · rw [forall_mem_cons, hl]
        refine ⟨nofun, fun w hw hn => hsm w hw ?_⟩
        rw [AList.lookup_erase_ne fun hk => ?_, hn]
        rw [hk, hl] at hn
        cases hn
      · by_cases hk : k = sha256 kv.key
        · rw [hr, hk, AList.lookup_erase, ite_self, if_pos (by simp)]
        · rw [hr, AList.lookup_erase_ne hk, if_congr (hmm k hk) rfl rfl]

theorem exists_matchWrites_iff (sha256 : Bytes → Bytes) (ws : List KVWrite) (t : AMap Bytes Bytes) :
    (∃ t', matchWrites sha256 ws t = some (ws.filter fun w => (t.lookup (sha256 w.key)).isSome, t')) ↔
      (∀ w ∈ ws, ∀ v, t.lookup (sha256 w.key) = some v → v = sha256 w.value) ∧
        ((ws.filter fun w => (t.lookup (sha256 w.key)).isSome).map fun w => sha256 w.key).Nodup := by
  induction ws generalizing t with
  | nil => simp [matchWrites]
  | cons kv ws ih =>
    rw [matchWrites, forall_mem_cons]
    cases hl : t.lookup (sha256 kv.key) with
    | none => simpa [hl] using ih t
    | some expected =>
      -- The key of `kv` is not expected any more: the other writes must not have it.
      have hn : (∀ w ∈ ws, sha256 w.key ≠ sha256 kv.key) →
          ∀ w ∈ ws, (t.erase (sha256 kv.key)).lookup (sha256 w.key) = t.lookup (sha256 w.key) :=
        fun hne w hw => AList.lookup_erase_ne (hne w hw)
      have hf : (∀ w ∈ ws, sha256 w.key ≠ sha256 kv.key) →
          (ws.filter fun w => ((t.erase (sha256 kv.key)).lookup (sha256 w.key)).isSome) =
            ws.filter fun w => (t.lookup (sha256 w.key)).isSome :=
        fun hne => filter_congr fun w hw => by rw [hn hne w hw]
      simp only [filter_cons, hl, Option.isSome_some, if_true, map_cons, nodup_cons]
      constructor
      · rintro ⟨t', h⟩
        obtain ⟨hv, h⟩ := Option.ite_none_right_eq_some.mp h
        obtain ⟨⟨final, rest⟩, hr, heq⟩ := Option.map_eq_some_iff.mp h
        cases heq
        have hne : ∀ w ∈ ws, sha256 w.key ≠ sha256 kv.key := by
          intro w hw hk
          apply (matchWrites_spec hr).2.1 w (mem_filter.mpr ⟨hw, by rw [hk, hl]; rfl⟩)
          rw [hk, AList.lookup_erase]
        obtain ⟨hvl, hnd⟩ := (ih _).mp ⟨rest, by rw [hf hne]; exact hr⟩
        rw [hf hne] at hnd
        refine ⟨⟨fun v heq => (Option.some.inj heq).symm.trans hv, fun w hw v hwv => ?_⟩, ?_, hnd⟩
        · exact hvl w hw v (by rw [hn hne w hw, hwv])
        · intro hm
          obtain ⟨w, hw, hk⟩ := mem_map.mp hm
          exact hne w (mem_filter.mp hw).1 hk
      · rintro ⟨⟨hv, hvl⟩, hnt, hnd⟩
        have hne : ∀ w ∈ ws, sha256 w.key ≠ sha256 kv.key := by
          intro w hw hk
          exact hnt (mem_map.mpr ⟨w, mem_filter.mpr ⟨hw, by rw [hk, hl]; rfl⟩, hk⟩)
        rw [if_pos (hv expected rfl)]
        obtain ⟨t', hr⟩ := (ih _).mpr ⟨fun w hw v hwv => hvl w hw v (by rw [← hn hne w hw, hwv]),
          by rw [hf hne]; exact hnd⟩
        exact ⟨t', by rw [hr, hf hne, Option.map_some]⟩

end

section

variable {sha256 : Bytes → Bytes} {p : Bytes → Bool} {ws : List KVWrite}

def hashesOf (sha256 : Bytes → Bytes) (ws : List KVWrite) : AMap Bytes Bytes :=
  kvHashesOf (ws.map fun w => (sha256 w.key, valueHash sha256 w))

abbrev remaining (sha256 : Bytes → Bytes) (p : Bytes → Bool) (ws : List KVWrite) : AMap Bytes Bytes :=
  removeAppInitiatedPurges p (hashesOf sha256 ws)

theorem isSome_hashesOf (k : Bytes) : ((hashesOf sha256 ws).lookup k).isSome ↔ k ∈ ws.map fun w => sha256 w.key := by
  rw [Option.isSome_iff_exists]
  constructor
  · rintro ⟨v, hv⟩
    obtain ⟨w, hw, heq⟩ := mem_map.mp (AMap.mem_of_lookup_foldl_insert hv)
    exact mem_map.mpr ⟨w, hw, congrArg Prod.fst heq⟩
  · intro hk
    obtain ⟨w, hw, rfl⟩ := mem_map.mp hk
    exact AMap.exists_lookup_foldl_insert (e := (sha256 w.key, valueHash sha256 w)) (mem_map.mpr ⟨w, hw, rfl⟩) ∅

theorem lookup_remaining (k : Bytes) :
    (remaining sha256 p ws).lookup k = if p k then (hashesOf sha256 ws).lookup k else none := by
  rw [remaining, removeAppInitiatedPurges, AMap.lookup_filterMap]
  cases (hashesOf sha256 ws).lookup k <;> simp

theorem isSome_remaining {w : KVWrite} (hw : w ∈ ws) :
    ((remaining sha256 p ws).lookup (sha256 w.key)).isSome = p (sha256 w.key) := by
  rw [lookup_remaining]
  cases hp : p (sha256 w.key)
  · rfl
  · exact (isSome_hashesOf _).mpr (mem_map.mpr ⟨w, hw, rfl⟩)

theorem length_remaining_le (ws : List KVWrite) : (remaining sha256 p ws).entries.length ≤ ws.length := by
  have hsub : (remaining sha256 p ws).keys ⊆ ws.map fun w => sha256 w.key := by
    intro k hk
    have hsm := AList.lookup_isSome.mpr hk
    rw [lookup_remaining] at hsm
    split_ifs at hsm
    · exact (isSome_hashesOf k).mp hsm
    · cases hsm
  have hle := (subperm_of_subset (AList.keys_nodup _) hsub).length_le
  rwa [AList.keys, List.keys, length_map, length_map] at hle

theorem values_remaining_iff (hne : ∀ b, sha256 b ≠ [])
    (hnd : ((ws.filter fun w => p (sha256 w.key)).map fun w => sha256 w.key).Nodup) :
    (∀ w ∈ ws, ∀ v, (remaining sha256 p ws).lookup (sha256 w.key) = some v → v = sha256 w.value) ↔
      ∀ w ∈ ws, p (sha256 w.key) → w.isDelete = false := by
  refine forall₂_congr fun w hw => ?_
  rw [lookup_remaining]
  by_cases hp : p (sha256 w.key)
  · have hlk : (hashesOf sha256 ws).lookup (sha256 w.key) = some (valueHash sha256 w) := by
      rw [hashesOf, kvHashesOf, AMap.lookup_foldl_insert_of_agree, if_pos]
      · rw [map_map]
        exact mem_map.mpr ⟨w, hw, rfl⟩
      · intro e he hk
        obtain ⟨w', hw', rfl⟩ := mem_map.mp he
        rw [inj_on_of_nodup_map hnd (mem_filter.mpr ⟨hw', (congrArg p hk).trans hp⟩)
          (mem_filter.mpr ⟨hw, hp⟩) hk]
    rw [hlk, valueHash]
    cases w.isDelete
    · simp
    · simpa [hp] using (hne w.value).symm
  · simp [hp]

theorem matchWrites_remaining_iff (hinj : Function.Injective sha256) (hne : ∀ b, sha256 b ≠ []) (p : Bytes → Bool)
    (ws : List KVWrite) :
    (∃ final rest, matchWrites sha256 ws (remaining sha256 p ws) = some (final, rest) ∧ ¬0 < rest.entries.length ∧
        final = ws.filter fun w => p (sha256 w.key)) ↔
      (∀ w ∈ ws, p (sha256 w.key) → w.isDelete = false) ∧
        ((ws.filter fun w => p (sha256 w.key)).map KVWrite.key).Nodup := by
  have hmt := exists_matchWrites_iff sha256 ws (remaining sha256 p ws)
  rw [filter_congr fun w hw => isSome_remaining hw] at hmt
  rw [← nodup_map_iff hinj, map_map]
  constructor
  · rintro ⟨final, rest, hm, _, rfl⟩
    obtain ⟨hvl, hnd⟩ := hmt.mp ⟨rest, hm⟩
    exact ⟨(values_remaining_iff hne hnd).mp hvl, hnd⟩
  · rintro ⟨hd, hnd⟩
    obtain ⟨rest, hm⟩ := hmt.mpr ⟨(values_remaining_iff hne hnd).mpr hd, hnd⟩
    refine ⟨_, rest, hm, ?_, rfl⟩
    rw [Nat.not_lt, Nat.le_zero, AMap.length_eq_zero_iff]
    intro k
    rw [(matchWrites_spec hm).2.2, lookup_remaining]
    split_ifs with hk
    · rfl
    · exact Option.not_isSome_iff_eq_none.mp ((isSome_hashesOf k).not.mpr hk)
    · rfl

theorem forall_of_checkedAsWhole {collWSHash : Option Bytes}
    (h : checkedAsWhole collWSHash (hashesOf sha256 ws) (remaining sha256 p ws) ws) : ∀ w ∈ ws, p (sha256 w.key) := by
  rw [checkedAsWhole, Bool.and_eq_true, Bool.and_eq_true, decide_eq_true_iff] at h
  intro w hw
  obtain ⟨v, hv⟩ := Option.isSome_iff_exists.mp ((isSome_hashesOf _).mpr (mem_map.mpr ⟨w, hw, rfl⟩))
  have hsm := filterMap_length_eq_length.mp h.1.2 _ (AList.mem_lookup_iff.mp hv)
  by_contra hp
  simp [hp] at hsm

end

section

variable {sha256 : Bytes → Bytes} {wire : Wire Bytes KVRWSet} {markers : AMap CompositeKey Version}
variable {collPvtProto : CollectionPvtReadWriteSet} {ns : Bytes} {keyHt : Version} {txRWSet : TxRwSet}
variable {collWSHash : Option Bytes} {kvRwSet : KVRWSet} {p : Bytes → Bool}

/-- Private data that the block carries the hashes of: of each write and, where the block is there, of
the whole write set. -/
structure MatchesBlock (sha256 : Bytes → Bytes) (wire : Wire Bytes KVRWSet) (collPvtProto : CollectionPvtReadWriteSet)
    (ns : Bytes) (txRWSet : TxRwSet) (collWSHash : Option Bytes) (kvRwSet : KVRWSet) : Prop where
  unmarshal : wire.unmarshal collPvtProto.rwset = some kvRwSet
  writes : ∃ c, hashedCollection txRWSet ns collPvtProto.collectionName = some c ∧
    c.hashedRwSet.hashedWrites.map (fun h => (h.keyHash, h.valueHash)) =
      kvRwSet.writes.map fun w => (sha256 w.key, valueHash sha256 w)
  hash : ∀ h, collWSHash = some h → h = sha256 collPvtProto.rwset

def KeepsUnpurged (sha256 : Bytes → Bytes) (wire : Wire Bytes KVRWSet) (p : Bytes → Bool)
    (collPvtProto : CollectionPvtReadWriteSet) (kvRwSet : KVRWSet) (result : Option CollectionPvtReadWriteSet) : Prop :=
  ∃ out, result = some out ∧ ∃ kept, wire.unmarshal out.rwset = some kept ∧
    out.collectionName = collPvtProto.collectionName ∧ kept.writes = kvRwSet.writes.filter (fun w => p (sha256 w.key)) ∧
    kept.metadataWrites = kvRwSet.metadataWrites.filter fun m => p (sha256 m.key)

/-- When the data is kept as it should be: checked as a whole, it may have no metadata of a purged key;
checked write by write, neither a deletion nor metadata of a key that remains. -/
def PurgeSafe (sha256 : Bytes → Bytes) (p : Bytes → Bool) (kvRwSet : KVRWSet) (collWSHash : Option Bytes) : Prop :=
  if kvRwSet.writes ≠ [] ∧
      checkedAsWhole collWSHash (hashesOf sha256 kvRwSet.writes) (remaining sha256 p kvRwSet.writes) kvRwSet.writes then
    ∀ m ∈ kvRwSet.metadataWrites, p (sha256 m.key)
  else
    (∀ w ∈ kvRwSet.writes, p (sha256 w.key) → w.isDelete = false) ∧
      ((kvRwSet.writes.filter fun w => p (sha256 w.key)).map KVWrite.key).Nodup ∧
      ∀ m ∈ kvRwSet.metadataWrites, ¬p (sha256 m.key)

theorem keepsUnpurged_nil_iff (he : wire.unmarshal [] = some {})
    (hz : (remaining sha256 p kvRwSet.writes).entries.length = 0) :
    KeepsUnpurged sha256 wire p collPvtProto kvRwSet (some ⟨collPvtProto.collectionName, []⟩) ↔
      PurgeSafe sha256 p kvRwSet collWSHash := by
  have hpr : ∀ w ∈ kvRwSet.writes, ¬p (sha256 w.key) := by
    intro w hw
    rw [← isSome_remaining (p := p) hw, (AMap.length_eq_zero_iff _).mp hz]
    exact Bool.false_ne_true
  have hn : ¬(kvRwSet.writes ≠ [] ∧ checkedAsWhole collWSHash (hashesOf sha256 kvRwSet.writes)
      (remaining sha256 p kvRwSet.writes) kvRwSet.writes) := by
    rintro ⟨hws, hc⟩
    obtain ⟨w, hw⟩ := exists_mem_of_ne_nil _ hws
    exact hpr w hw (forall_of_checkedAsWhole hc w hw)
  rw [PurgeSafe, if_neg hn, KeepsUnpurged]
  simp only [Option.some.injEq, exists_eq_left', he, true_and, filter_eq_nil_iff.mpr hpr]
  rw [eq_comm, filter_eq_nil_iff]
  exact ⟨fun hmd => ⟨fun w hw hr => absurd hr (hpr w hw), nodup_nil, hmd⟩, fun h => h.2.2⟩

theorem validateAndRemovePurgedKeys_exact_iff (hinj : Function.Injective sha256) (hne : ∀ b, sha256 b ≠ [])
    (hwire : ∀ l, l.Sublist kvRwSet.writes → wire.RoundTrips { writes := l }) (hempty : wire.unmarshal [] = some {})
    (d : MatchesBlock sha256 wire collPvtProto ns txRWSet collWSHash kvRwSet) :
    KeepsUnpurged sha256 wire (unpurged markers ns collPvtProto.collectionName keyHt) collPvtProto kvRwSet
        (validateAndRemovePurgedKeys sha256 wire markers collPvtProto
          (retrieveCollKVHashes txRWSet ns collPvtProto.collectionName) collWSHash ns keyHt) ↔
      PurgeSafe sha256 (unpurged markers ns collPvtProto.collectionName keyHt) kvRwSet collWSHash := by
  have hhs : retrieveCollKVHashes txRWSet ns collPvtProto.collectionName = hashesOf sha256 kvRwSet.writes := by
    obtain ⟨c, hc, hw⟩ := d.writes
    rw [retrieveCollKVHashes, hc, Option.elim_some, hw, hashesOf]
  rw [hhs, validateAndRemovePurgedKeys]
  generalize unpurged markers ns collPvtProto.collectionName keyHt = p
  rw [validateTrimmed]
  by_cases hz : (remaining sha256 p kvRwSet.writes).entries.length = 0
  · rw [if_pos hz]
    exact keepsUnpurged_nil_iff hempty hz
  have hws : kvRwSet.writes ≠ [] := by
    intro hws
    apply hz
    rw [← Nat.le_zero, ← length_nil, ← hws]
    exact length_remaining_le _
  rw [if_neg hz, d.unmarshal, Option.bind_eq_bind, Option.bind_some, PurgeSafe]
  by_cases hc : checkedAsWhole collWSHash (hashesOf sha256 kvRwSet.writes) (remaining sha256 p kvRwSet.writes)
      kvRwSet.writes
  · have hha : collWSHash = some (sha256 collPvtProto.rwset) := by
      rw [checkedAsWhole, Bool.and_eq_true, Bool.and_eq_true] at hc
      obtain ⟨h, hh⟩ := Option.isSome_iff_exists.mp hc.1.1
      rw [hh, d.hash h hh]
    rw [if_pos hc, if_pos hha, if_pos ⟨hws, hc⟩, KeepsUnpurged]
    simp only [Option.some.injEq, exists_eq_left', d.unmarshal, filter_eq_self.mpr (forall_of_checkedAsWhole hc),
      true_and]
    rw [eq_comm, filter_eq_self]
  · rw [if_neg hc, if_neg (Nat.not_lt.mpr (length_remaining_le _)), if_neg fun h => hc h.2]
    have hmt := matchWrites_remaining_iff hinj hne p kvRwSet.writes
    constructor
    · rintro ⟨out, ho, kept, hk, _, hw, hmd⟩
      obtain ⟨⟨final, rest⟩, hm, ho⟩ := Option.bind_eq_some_iff.mp ho
      obtain ⟨hr, ho⟩ := Option.ite_none_left_eq_some.mp ho
      cases ho
      rw [hwire final (matchWrites_spec hm).1] at hk
      cases hk
      obtain ⟨hd, hnd⟩ := hmt.mp ⟨final, rest, hm, hr, hw⟩
      exact ⟨hd, hnd, filter_eq_nil_iff.mp hmd.symm⟩
    · rintro ⟨hd, hnd, hmd⟩
      obtain ⟨final, rest, hm, hr, hf⟩ := hmt.mpr ⟨hd, hnd⟩
      exact ⟨_, Option.bind_eq_some_iff.mpr ⟨(final, rest), hm, if_neg hr⟩, _, hwire final (matchWrites_spec hm).1,
        rfl, hf, (filter_eq_nil_iff.mpr hmd).symm⟩

end

def taggedHash (b : Bytes) : Bytes :=
  1 :: b

def exampleRwset (writes : List KVWrite) : TxRwSet :=
  ⟨[⟨ascii "n", {}, [⟨ascii "c", { hashedWrites := writes.map fun w =>
    ⟨⟨taggedHash w.key, w.isDelete, valueHash taggedHash w⟩, false⟩ }, []⟩]⟩]⟩

def exampleWire (writes : List KVWrite) : Wire Bytes KVRWSet :=
  .ofTable [2] (({}, []) :: ({ writes }, [1]) :: writes.zipIdx.map fun w => ({ writes := [w.1] }, [3, UInt8.ofNat w.2]))

def purgedA : AMap CompositeKey Version :=
  AList.insert ⟨ascii "n", ascii "c", taggedHash (ascii "a")⟩ ⟨7, 0⟩ ∅

def twoWrites : List KVWrite :=
  [⟨ascii "a", false, ascii "v"⟩, ⟨ascii "k", false, ascii "w"⟩]

theorem validateAndRemovePurgedKeys_keeps_value :
    unpurged purgedA (ascii "n") (ascii "c") ⟨5, 0⟩ (taggedHash (ascii "a")) = false ∧
      KeepsUnpurged taggedHash (exampleWire twoWrites) (unpurged purgedA (ascii "n") (ascii "c") ⟨5, 0⟩) ⟨ascii "c", [1]⟩
        { writes := twoWrites } (validateAndRemovePurgedKeys taggedHash (exampleWire twoWrites) purgedA ⟨ascii "c", [1]⟩
          (retrieveCollKVHashes (exampleRwset twoWrites) (ascii "n") (ascii "c")) none (ascii "n") ⟨5, 0⟩) := by
  refine ⟨rfl, (validateAndRemovePurgedKeys_exact_iff (fun a b h => (List.cons.inj h).2) (fun b => cons_ne_nil _ _) ?_ rfl
    ⟨rfl, ⟨_, rfl, rfl⟩, by simp⟩).mpr ?_⟩
  · intro l hl
    rcases sublist_cons_iff.mp hl with hl | ⟨r, rfl, hr⟩
    · rcases sublist_singleton.mp hl with rfl | rfl <;> rfl
    · rcases sublist_singleton.mp hr with rfl | rfl <;> rfl
  · rw [PurgeSafe]
    decide

/-- A purge of another key makes the peer compare a deletion, which the block has no value hash for,
with the hash of no bytes. -/
theorem deletion_beside_purge_rejected :
    MatchesBlock taggedHash (exampleWire [⟨ascii "a", false, ascii "v"⟩, ⟨ascii "b", true, []⟩]) ⟨ascii "c", [1]⟩
        (ascii "n") (exampleRwset [⟨ascii "a", false, ascii "v"⟩, ⟨ascii "b", true, []⟩]) (some (taggedHash [1]))
        { writes := [⟨ascii "a", false, ascii "v"⟩, ⟨ascii "b", true, []⟩] } ∧
      validateAndRemovePurgedKeys taggedHash (exampleWire [⟨ascii "a", false, ascii "v"⟩, ⟨ascii "b", true, []⟩])
        purgedA ⟨ascii "c", [1]⟩
        (retrieveCollKVHashes (exampleRwset [⟨ascii "a", false, ascii "v"⟩, ⟨ascii "b", true, []⟩]) (ascii "n") (ascii "c"))
        (some (taggedHash [1])) (ascii "n") ⟨5, 0⟩ = none :=
  ⟨⟨rfl, ⟨_, rfl, rfl⟩, fun h hh => (Option.some.inj hh).symm⟩, by decide⟩

end Drunix.Ledger.Reconciliation
