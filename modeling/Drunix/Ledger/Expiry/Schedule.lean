import Drunix.Ledger.Expiry.PurgeMgr

namespace Drunix.Ledger.Expiry

open Lib Proto Validation Outcome List

theorem toNat_computeExpiringBlock (committingBlock btl : UInt64) :
    (computeExpiringBlock committingBlock btl).toNat = min (committingBlock.toNat + btl.toNat + 1) maxUint64.toNat := by
  have hmax : maxUint64.toNat = 18446744073709551615 := rfl
  have hb := btl.toNat_lt
  have hsm : (committingBlock + btl + 1).toNat = (committingBlock.toNat + btl.toNat + 1) % 2 ^ 64 := by
    simp
  rw [computeExpiringBlock]
  split_ifs with h
  · rw [UInt64.le_iff_toNat_le] at h
    omega
  · rw [UInt64.le_iff_toNat_le] at h
    omega

def keysAt (schedule : ExpirySchedule) (ek : ExpiryInfoKey) : List KeyAndHash :=
  (schedule.lookup ek).getD []

structure DueAt (policy : BTLPolicy) (e : KeyAndHash) (vv : VersionedValue) (ek : ExpiryInfoKey) : Prop where
  value : vv.value ≠ none
  committing : ek.committingBlk = vv.version.blockNum
  expiring : ∃ btl, policy.getBTL e.hashed.ns e.hashed.coll = some btl ∧
    ek.expiryBlk = computeExpiringBlock ek.committingBlk btl
  expires : ek.expiryBlk ≠ maxUint64

section

variable {policy : BTLPolicy} {sha256 : Bytes → Bytes} {m m' schedule : ExpirySchedule} {e : KeyAndHash}
  {ek : ExpiryInfoKey} {p : PvtUpdates} {hashUpdates : AMap CompositeKey VersionedValue}
  {x : KeyAndHash × VersionedValue}

theorem addToSchedule_eq_ok (h : addToSchedule policy m x = .ok m') :
    (m' = m ∧ ∀ ek, ¬ DueAt policy x.1 x.2 ek) ∨
      ∃ ek, m' = m.modify ek (fun keys => keys.getD [] ++ [x.1]) ∧ ∀ ek', DueAt policy x.1 x.2 ek' ↔ ek' = ek := by
  simp only [addToSchedule, bind_eq_ok] at h
  obtain ⟨btl, hb, h⟩ := h
  have hb : policy.getBTL x.1.hashed.ns x.1.hashed.coll = some btl := by
    cases hg : policy.getBTL x.1.hashed.ns x.1.hashed.coll with
    | none => simp [hg, Outcome.orErr] at hb
    | some btl' => simpa [hg, Outcome.orErr] using hb
  by_cases hsk : x.2.value = none ∨ computeExpiringBlock x.2.version.blockNum btl = maxUint64
  · rw [if_pos hsk] at h
    cases h
    refine .inl ⟨rfl, fun ek hd => ?_⟩
    obtain ⟨btl', hb', he⟩ := hd.expiring
    cases hb.symm.trans hb'
    rcases hsk with hn | hmax
    · exact hd.value hn
    · exact hd.expires (by rw [he, hd.committing, hmax])
  · rw [if_neg hsk] at h
    cases h
    rw [not_or] at hsk
    refine .inr ⟨_, rfl, fun ek' => ⟨fun hd => ?_, ?_⟩⟩
    · obtain ⟨btl', hb', he⟩ := hd.expiring
      cases hb.symm.trans hb'
      obtain ⟨committingBlk, expiryBlk⟩ := ek'
      have hc : committingBlk = x.2.version.blockNum := hd.committing
      subst hc
      exact congrArg _ he
    · rintro rfl
      exact ⟨hsk.1, rfl, ⟨btl, hb, rfl⟩, hsk.2⟩

theorem mem_keysAt_addToSchedule (h : addToSchedule policy m x = .ok m') :
    e ∈ keysAt m' ek ↔ e ∈ keysAt m ek ∨ e = x.1 ∧ DueAt policy x.1 x.2 ek := by
  obtain ⟨rfl, hn⟩ | ⟨ek', rfl, hd⟩ := addToSchedule_eq_ok h
  · simp [hn ek]
  · rw [hd ek, keysAt, AMap.lookup_modify, keysAt]
    by_cases hek : ek = ek'
    · subst hek
      simp
    · simp [hek]

theorem mem_keysAt_foldlM {l : List (KeyAndHash × VersionedValue)} (h : l.foldlM (addToSchedule policy) m = .ok m') :
    e ∈ keysAt m' ek ↔ e ∈ keysAt m ek ∨ ∃ vv, (e, vv) ∈ l ∧ DueAt policy e vv ek := by
  induction l generalizing m with
  | nil =>
    cases h
    simp
  | cons x l ih =>
    obtain ⟨m₁, hx, hl⟩ := bind_eq_ok.mp h
    rw [ih hl, mem_keysAt_addToSchedule hx, or_assoc]
    simp only [mem_cons, Prod.ext_iff]
    grind

section

variable (h : buildExpirySchedule policy sha256 p hashUpdates = .ok schedule)
include h

theorem mem_keysAt_buildExpirySchedule :
    e ∈ keysAt schedule ek ↔ ∃ vv, (e, vv) ∈ scheduled sha256 p hashUpdates ∧ DueAt policy e vv ek := by
  rw [mem_keysAt_foldlM h]
  exact or_iff_right not_mem_nil

theorem keysAt_ne_nil (hek : schedule.lookup ek ≠ none) : keysAt schedule ek ≠ [] := by
  refine foldlM_invariant (fun m : ExpirySchedule => ∀ ek, m.lookup ek ≠ none → keysAt m ek ≠ []) ?_
    (fun ek hek => absurd (AList.lookup_empty ek) hek) h ek hek
  intro x _ m m' hm hx ek hek
  obtain ⟨rfl, _⟩ | ⟨ek', rfl, _⟩ := addToSchedule_eq_ok hx
  · exact hm ek hek
  · rw [keysAt, AMap.lookup_modify]
    by_cases heq : ek = ek'
    · simp [heq]
    · rw [AMap.lookup_modify, if_neg heq] at hek
      rw [if_neg heq]
      exact hm ek hek

end

theorem mem_scheduled {vv : VersionedValue} :
    (e, vv) ∈ scheduled sha256 p hashUpdates ↔
      (∃ k, p.lookup k = some vv ∧ e = ⟨hashedKey sha256 k, k.key⟩) ∨
        (hashUpdates.lookup e.hashed = some vv ∧ e.key = [] ∧ ∀ k, hashedKey sha256 k = e.hashed → p.lookup k = none) := by
  rw [scheduled, mem_append, mem_map, mem_map]
  refine or_congr ⟨?_, ?_⟩ ⟨?_, ?_⟩
  · rintro ⟨x, hx, heq⟩
    cases heq
    exact ⟨x.1, AMap.mem_toPairs.mp hx, rfl⟩
  · rintro ⟨k, hk, rfl⟩
    exact ⟨(k, vv), AMap.mem_toPairs.mpr hk, rfl⟩
  · rintro ⟨x, hx, heq⟩
    cases heq
    obtain ⟨hm, hlf⟩ := mem_filter.mp hx
    rw [decide_eq_true_iff] at hlf
    refine ⟨AMap.mem_toPairs.mp hm, rfl, fun k hk => ?_⟩
    cases hl : p.lookup k with
    | none => rfl
    | some vv =>
      exact absurd (mem_map.mpr ⟨(k, vv), AMap.mem_toPairs.mpr hl, hk⟩) hlf
  · rintro ⟨hl, hky, hlf⟩
    refine ⟨(e.hashed, vv), mem_filter.mpr ⟨AMap.mem_toPairs.mpr hl, ?_⟩, ?_⟩
    · rw [decide_eq_true_iff]
      intro hm
      obtain ⟨x, hx, heq⟩ := mem_map.mp hm
      have hn := hlf x.1 heq
      rw [AMap.mem_toPairs.mp hx] at hn
      cases hn
    · cases e
      cases hky
      rfl

end

section

variable {keeper toTrack : ExpirySchedule} {toClear : List ExpiryInfoKey} {ek : ExpiryInfoKey}

theorem lookup_updateKeeper :
    (updateKeeper keeper toTrack toClear).lookup ek =
      if ek ∈ toClear then none else (toTrack.lookup ek).or (keeper.lookup ek) := by
  have hp : (toTrack.toPairs.foldl (fun m e => m.insert e.1 e.2) keeper).lookup ek =
      (toTrack.lookup ek).or (keeper.lookup ek) := by
    rw [AMap.foldl_toPairs_of_frame (fun m : ExpirySchedule => m.lookup ek) (fun keys _ => some keys)]
    · cases toTrack.lookup ek <;> rfl
    · intro m e _ hne
      exact AList.lookup_insert_ne (Ne.symm hne)
    · intro m keys _
      exact AList.lookup_insert m
  rw [updateKeeper, ← hp]
  generalize toTrack.toPairs.foldl (fun m e => m.insert e.1 e.2) keeper = m
  induction toClear generalizing m with
  | nil => rfl
  | cons ek' toClear ih =>
    rw [foldl_cons, ih]
    by_cases hek : ek = ek'
    · subst hek
      simp
    · simp [hek, AList.lookup_erase_ne hek]

theorem keysAt_updateKeeper :
    keysAt (updateKeeper (updateKeeper keeper toTrack []) ∅ toClear) ek =
      if ek ∈ toClear then [] else ((toTrack.lookup ek).or (keeper.lookup ek)).getD [] := by
  rw [keysAt, lookup_updateKeeper, lookup_updateKeeper, AList.lookup_empty, Option.none_or]
  split <;> rfl

end

section

variable {db : StateDB} {keeper : ExpirySchedule} {n : UInt64} {c : CompositeKey} {kv : KeyAndVersion}

theorem mem_expiryInfo {x : CompositeKey × KeyAndVersion} :
    x ∈ ((retrieve keeper n).flatMap fun e =>
        e.2.map fun k => (k.hashed, (⟨k.key, e.1.committingBlk, false⟩ : KeyAndVersion))) ↔
      x.2.purgeKeyOnly = false ∧ ⟨x.1, x.2.key⟩ ∈ keysAt keeper ⟨x.2.committingBlock, n⟩ := by
  rw [mem_flatMap]
  constructor
  · rintro ⟨⟨ek, keys⟩, hm, hx⟩
    obtain ⟨k, hk, rfl⟩ := mem_map.mp hx
    obtain ⟨hlk, he⟩ := mem_filter.mp hm
    rw [decide_eq_true_iff] at he
    cases he
    refine ⟨rfl, ?_⟩
    rw [keysAt, AMap.mem_toPairs.mp hlk]
    exact hk
  · rintro ⟨ho, hm⟩
    obtain ⟨c, key, committingBlock, purgeKeyOnly⟩ := x
    cases ho
    rw [keysAt] at hm
    cases hl : keeper.lookup ⟨committingBlock, n⟩ with
    | none => simp [hl] at hm
    | some keys =>
      rw [hl] at hm
      refine ⟨(⟨committingBlock, n⟩, keys), ?_, mem_map.mpr ⟨⟨c, key⟩, hm, rfl⟩⟩
      exact mem_filter.mpr ⟨AMap.mem_toPairs.mpr hl, by simp⟩

theorem scheduled_of_lookup_transform (h : (transformToExpiryInfoMap (retrieve keeper n)).lookup c = some kv) :
    kv.purgeKeyOnly = false ∧ ⟨c, kv.key⟩ ∈ keysAt keeper ⟨kv.committingBlock, n⟩ :=
  mem_expiryInfo.mp (AMap.mem_of_lookup_foldl_insert h)

theorem exists_lookup_transform {e : KeyAndHash} {b : UInt64} (h : e ∈ keysAt keeper ⟨b, n⟩) :
    ∃ kv, (transformToExpiryInfoMap (retrieve keeper n)).lookup e.hashed = some kv :=
  AMap.exists_lookup_foldl_insert (e := (e.hashed, ⟨e.key, b, false⟩)) (mem_expiryInfo.mpr ⟨rfl, h⟩) ∅

theorem lookup_toPurge : (prepareWorkingsetFor db keeper n).toPurge.lookup c =
    ((transformToExpiryInfoMap (retrieve keeper n)).lookup c).bind (stillCommitted db c) :=
  AMap.lookup_filterMap _ _ _

theorem stillCommitted_eq_some {kv' : KeyAndVersion} (h : stillCommitted db c kv = some kv') :
    (kv' = kv ∧ (getKeyHashVersion db c.ns c.coll c.key).map Version.blockNum = some kv.committingBlock) ∨
      (kv' = { kv with purgeKeyOnly := true } ∧ kv.key ≠ [] ∧
        (db (pvtDataKey ⟨c.ns, c.coll, kv.key⟩)).map (fun vv => vv.version.blockNum) = some kv.committingBlock) := by
  rw [stillCommitted] at h
  split at h
  next hvr =>
    cases h
    exact .inl ⟨rfl, hvr⟩
  next =>
    split at h
    next hp =>
      cases h
      exact .inr ⟨rfl, hp⟩
    next => cases h

end

section

variable {ws : Workingset} {b : Batches} {c : CompositeKey}

def expired (ws : Workingset) : VersionedValue :=
  ⟨none, [], ⟨ws.expiringBlk, maxUint64⟩⟩

theorem get_addExpiredEntries :
    (addExpiredEntriesToUpdateBatch ws b).1.get c = (ws.toPurge.lookup c).elim (b.1.get c) fun kv =>
      if (b.1.get c).isNone ∧ kv.purgeKeyOnly = false then some (expired ws) else b.1.get c := by
  refine AMap.foldl_toPairs_of_frame (fun b : Batches => b.1.get c)
    (fun (kv : KeyAndVersion) get => if get.isNone ∧ kv.purgeKeyOnly = false then some (expired ws) else get) ?_ ?_ b
  · intro b e _ hne
    dsimp only [addExpiredEntry]
    split
    · rw [PublicAndHashUpdates.get_set, if_neg (Ne.symm hne)]
    · rfl
  · intro b kv _
    dsimp only [addExpiredEntry]
    split
    · rw [PublicAndHashUpdates.get_set, if_pos rfl]
      rfl
    · rfl

theorem lookup_addExpiredEntries {sha256 : Bytes → Bytes}
    (hws : ∀ c kv, ws.toPurge.lookup c = some kv → kv.key ≠ [] → c.key = sha256 kv.key) {k : CompositeKey}
    (hk : k.key ≠ []) :
    (addExpiredEntriesToUpdateBatch ws b).2.lookup k =
      (ws.toPurge.lookup (hashedKey sha256 k)).elim (b.2.lookup k) fun kv =>
        if kv.key = k.key ∧ (b.2.lookup k).isNone then some (expired ws) else b.2.lookup k := by
  refine AMap.foldl_toPairs_of_frame (fun b : Batches => b.2.lookup k)
    (fun (kv : KeyAndVersion) get => if kv.key = k.key ∧ get.isNone then some (expired ws) else get) ?_ ?_ b
  · intro b e he hne
    dsimp only [addExpiredEntry]
    split
    next hi =>
      refine AList.lookup_insert_ne ?_
      rintro rfl
      apply hne
      rw [hashedKey]
      rw [← hws e.1 e.2 (AMap.mem_toPairs.mp he) hi.1]
    next => rfl
  · intro b kv _
    dsimp only [addExpiredEntry]
    by_cases hky : kv.key = k.key
    · have hsm : (⟨(hashedKey sha256 k).ns, (hashedKey sha256 k).coll, kv.key⟩ : CompositeKey) = k := by
        rw [hky]
        rfl
      rw [hsm, hky]
      simp only [ne_eq, hk, not_false_eq_true, true_and]
      split
      · rw [AList.lookup_insert]
        rfl
      · rfl
    · have hne : k ≠ ⟨(hashedKey sha256 k).ns, (hashedKey sha256 k).coll, kv.key⟩ := by
        intro heq
        exact hky (congrArg CompositeKey.key heq).symm
      split <;> simp [hne, hky]

end

end Drunix.Ledger.Expiry
