import Drunix.Lib.AMap
import Drunix.Lib.Outcome
import Drunix.Proto.Envelope

namespace Drunix.Orderer

open Lib Proto List

structure Consenter where
  host : Bytes := []
  port : UInt32 := 0
  clientTlsCert : Bytes
  serverTlsCert : Bytes := []

/-- `etcdraft.BlockMetadata`. -/
structure RaftMetadata where
  consenterIds : List UInt64
  nextConsenterId : UInt64
  raftIndex : UInt64 := 0

inductive ConfChangeType where
  | addNode
  | removeNode

structure ConfChange where
  type : ConfChangeType
  nodeID : UInt64

structure MembershipChanges where
  newBlockMetadata : RaftMetadata
  newConsenters : AMap UInt64 Consenter
  addedNodes : List Consenter
  removedNodes : List Consenter
  confChange : Option ConfChange := none
  rotatedNode : UInt64 := 0

section

variable (md : RaftMetadata) (old : AMap UInt64 Consenter) (new : List Consenter)

def membershipByCert : AMap Bytes UInt64 :=
  (old.toPairs.map fun e => (e.2.clientTlsCert, e.1)).foldl (fun set e => set.insert e.1 e.2) ∅

def nodeID? (c : Consenter) : Option UInt64 :=
  (membershipByCert old).lookup c.clientTlsCert

def added : List Consenter :=
  new.filter fun c => (nodeID? old c).isNone

def removed : List (UInt64 × Consenter) :=
  old.toPairs.filter fun e => e.2.clientTlsCert ∉ new.map Consenter.clientTlsCert

def retained : AMap UInt64 Consenter :=
  (new.filterMap fun c => (nodeID? old c).map (·, c)).foldl (fun m e => m.insert e.1 e.2) ∅

/-- The index of an added node is only used when there is one. The error has the numbers of its text. -/
def computeMembershipChanges : Outcome (Nat × Nat) MembershipChanges :=
  let ids := new.map fun c => (nodeID? old c).getD 0
  let addedNodeIndex := new.findIdx fun c => (nodeID? old c).isNone
  let result : MembershipChanges :=
    { newBlockMetadata := { md with consenterIds := ids }, newConsenters := retained old new,
      addedNodes := added old new, removedNodes := (removed old new).map Prod.snd }
  match added old new, removed old new with
  | [c], [(deletedNodeID, _)] => .ok { result with
      rotatedNode := deletedNodeID
      newBlockMetadata := { md with consenterIds := ids.set addedNodeIndex deletedNodeID }
      newConsenters := result.newConsenters.insert deletedNodeID c }
  | [c], [] => .ok { result with
      newConsenters := result.newConsenters.insert md.nextConsenterId c
      newBlockMetadata := { md with
        consenterIds := ids.set addedNodeIndex md.nextConsenterId, nextConsenterId := md.nextConsenterId + 1 }
      confChange := some ⟨.addNode, md.nextConsenterId⟩ }
  | [], [(deletedNodeID, _)] => .ok { result with
      confChange := some ⟨.removeNode, deletedNodeID⟩
      newConsenters := result.newConsenters.erase deletedNodeID }
  | [], [] => .ok result
  | addedNodes, removedNodes => .err (addedNodes.length, removedNodes.length)

/-- The last of the ids that is not one of the others, as the loops of `ConfChange` leave it. -/
def lastMissing (ids others : List UInt64) : UInt64 :=
  ids.foldl (fun nodeID id => if id ∈ others then nodeID else id) 0

def confChange (voters : List UInt64) : ConfChange :=
  if voters.length < md.consenterIds.length then ⟨.addNode, lastMissing md.consenterIds voters⟩
  else ⟨.removeNode, lastMissing voters md.consenterIds⟩

/-- A consenter is known by its client certificate. -/
structure Corresponds : Prop where
  nodup : md.consenterIds.Nodup
  mem_iff : ∀ id, id ∈ md.consenterIds ↔ (old.lookup id).isSome
  certs : ∀ id id' c c', old.lookup id = some c → old.lookup id' = some c' → c.clientTlsCert = c'.clientTlsCert → id = id'

/-- The new consenters have the ids `g`, where `used` has those of nodes that were removed before. -/
structure MembershipUpdate (used : List UInt64) (g : Consenter → UInt64) (mc : MembershipChanges) : Prop where
  ids : mc.newBlockMetadata.consenterIds = new.map g
  lookup : ∀ id c, mc.newConsenters.lookup id = some c ↔ c ∈ new ∧ g c = id
  keeps : ∀ c ∈ new, ∀ id c', old.lookup id = some c' → c'.clientTlsCert = c.clientTlsCert → g c = id
  adds : ∀ c ∈ added old new, removed old new = [] →
    g c ∉ md.consenterIds ++ used ∧ g c < mc.newBlockMetadata.nextConsenterId
  replaces : ∀ c ∈ added old new, ∀ e ∈ removed old new, g c = e.1
  unchanged : mc.confChange = none ↔ ∀ id, id ∈ mc.newBlockMetadata.consenterIds ↔ id ∈ md.consenterIds
  change : ∀ change voters, mc.confChange = some change → voters ~ md.consenterIds →
    change = confChange mc.newBlockMetadata voters

end

theorem lastMissing_eq {l l' : List UInt64} {d : UInt64} (hl : l.Nodup) (hl' : l'.Nodup) (hd : d ∉ l')
    (h : ∀ i, i ∈ l ↔ i ∈ l' ∨ i = d) : l'.length < l.length ∧ lastMissing l l' = d := by
  constructor
  · have hp : l ~ d :: l' := (perm_ext_iff_of_nodup hl (nodup_cons.mpr ⟨hd, hl'⟩)).mpr fun i => by rw [h, mem_cons, or_comm]
    rw [hp.length_eq]
    exact Nat.lt_succ_self _
  · obtain ⟨l₁, l₂, rfl⟩ := append_of_mem ((h d).mpr (.inr rfl))
    rw [lastMissing, foldl_append, foldl_cons, if_neg hd]
    refine foldlRecOn (motive := fun id => id = d) _ _ rfl fun id hid i hi => ?_
    rcases (h i).mp (by simp [hi]) with hi | rfl
    · rw [if_pos hi, hid]
    · rw [if_neg hd]

section

variable {md : RaftMetadata} {old : AMap UInt64 Consenter} {new : List Consenter} {c : Consenter} {id fresh d : UInt64}
  {mc : MembershipChanges} (h : Corresponds md old) (hnew : (new.map Consenter.clientTlsCert).Nodup)

theorem map_getD_congr {l : List Consenter} (h : ∀ c ∈ l, (nodeID? old c).isNone ≠ true) :
    l.map (fun c => (nodeID? old c).getD 0) = l.map fun c => (nodeID? old c).getD fresh := by
  refine map_congr_left fun c hc => ?_
  have hne := h c hc
  cases hn : nodeID? old c with
  | none => simp [hn] at hne
  | some i => rfl

theorem set_ids (ha : added old new = [c]) :
    (new.map fun c => (nodeID? old c).getD 0).set (new.findIdx fun c => (nodeID? old c).isNone) fresh =
      new.map fun c => (nodeID? old c).getD fresh := by
  obtain ⟨l₁, l₂, rfl, h₁, hc, h₂⟩ := filter_eq_cons_iff.mp ha
  have hi : (l₁ ++ c :: l₂).findIdx (fun c => (nodeID? old c).isNone) = l₁.length := by
    rw [findIdx_append, if_neg (by simpa using h₁), findIdx_cons, hc]
    exact Nat.zero_add _
  have hn : nodeID? old c = none := Option.isNone_iff_eq_none.mp hc
  rw [hi, map_append, map_append, map_cons, map_cons, set_append_right _ _ (by simp), length_map, Nat.sub_self,
    map_getD_congr h₁, map_getD_congr (filter_eq_nil_iff.mp h₂), hn]
  rfl

theorem mem_added : c ∈ added old new ↔ c ∈ new ∧ nodeID? old c = none := by
  rw [added, mem_filter, Option.isNone_iff_eq_none]

theorem nodup_assigned (hnew : (new.map Consenter.clientTlsCert).Nodup) {m : AMap UInt64 Consenter}
    (hlookup : ∀ id c, m.lookup id = some c ↔ c ∈ new ∧ (nodeID? old c).getD fresh = id) :
    (new.map fun c => (nodeID? old c).getD fresh).Nodup := by
  refine Nodup.map_on (fun c hc c' hc' heq => ?_) (Nodup.of_map _ hnew)
  have hl := (hlookup _ c).mpr ⟨hc, rfl⟩
  rw [heq, (hlookup _ c').mpr ⟨hc', rfl⟩] at hl
  exact (Option.some.inj hl).symm

include h

theorem nodeID?_eq_some : nodeID? old c = some id ↔ ∃ c', old.lookup id = some c' ∧ c'.clientTlsCert = c.clientTlsCert := by
  rw [nodeID?, membershipByCert, AMap.lookup_foldl_insert_iff]
  · simp only [mem_map, Prod.mk.injEq, Prod.exists, AMap.mem_toPairs]
    constructor
    · rintro ⟨_, c', hl, hc, rfl⟩
      exact ⟨c', hl, hc⟩
    · rintro ⟨c', hl, hc⟩
      exact ⟨id, c', hl, hc, rfl⟩
  · simp only [mem_map, forall_exists_index, and_imp, forall_apply_eq_imp_iff₂, AMap.mem_toPairs]
    exact fun e he e' he' hc => h.certs _ _ _ _ he he' hc

theorem exists_nodeID?_iff :
    (∃ c ∈ new, nodeID? old c = some id) ↔ id ∈ md.consenterIds ∧ id ∉ (removed old new).map Prod.fst := by
  simp only [nodeID?_eq_some h, h.mem_iff, Option.isSome_iff_exists, removed, mem_map, mem_filter, AMap.mem_toPairs,
    decide_eq_true_eq, Prod.exists, not_exists, not_and]
  constructor
  · rintro ⟨c, hc, c', hl, heq⟩
    refine ⟨⟨c', hl⟩, ?_⟩
    rintro i o ⟨ho, hnot⟩ rfl
    rw [hl] at ho
    cases ho
    exact hnot c hc heq.symm
  · rintro ⟨⟨c', hl⟩, hnot⟩
    by_contra hno
    exact hnot id c' ⟨hl, fun c hc heq => hno ⟨c, hc, c', hl, heq.symm⟩⟩ rfl

include hnew

theorem lookup_retained : (retained old new).lookup id = some c ↔ c ∈ new ∧ nodeID? old c = some id := by
  rw [retained, AMap.lookup_foldl_insert_iff]
  · simp [mem_filterMap, and_assoc, and_comm]
  · simp only [mem_filterMap, Option.map_eq_some_iff, forall_exists_index, and_imp]
    rintro _ c hc i hi rfl _ c' hc' i' hi' rfl rfl
    obtain ⟨o, ho, hoc⟩ := (nodeID?_eq_some h).mp hi
    obtain ⟨o', ho', hoc'⟩ := (nodeID?_eq_some h).mp hi'
    rw [ho] at ho'
    cases ho'
    exact inj_on_of_nodup_map hnew hc hc' (hoc.symm.trans hoc')

/-- The added node under an id that no other new consenter has. -/
theorem lookup_insert_added (ha : added old new = [c]) (hf : ∀ c ∈ new, nodeID? old c ≠ some fresh) : ∀ id c',
    ((retained old new).insert fresh c).lookup id = some c' ↔ c' ∈ new ∧ (nodeID? old c').getD fresh = id := by
  intro id c'
  have hadd : ∀ c', c' = c ↔ c' ∈ new ∧ nodeID? old c' = none := fun c' => by rw [← mem_added, ha, mem_singleton]
  by_cases hid : id = fresh
  · subst hid
    rw [AList.lookup_insert, Option.some.injEq, eq_comm, hadd, and_congr_right_iff]
    intro hc'
    cases hn : nodeID? old c' with
    | none => simp
    | some i => simpa [hn] using hf c' hc'
  · rw [AList.lookup_insert_ne hid, lookup_retained h hnew, and_congr_right_iff]
    intro hc'
    cases nodeID? old c' <;> simp [Ne.symm hid]

omit hnew

theorem mem_assigned_iff : id ∈ new.map (fun c => (nodeID? old c).getD fresh) ↔
    (id ∈ md.consenterIds ∧ id ∉ (removed old new).map Prod.fst) ∨ id = fresh ∧ added old new ≠ [] := by
  rw [mem_map, ← exists_nodeID?_iff h, ne_eq, eq_nil_iff_forall_not_mem, not_forall_not]
  simp only [mem_added]
  constructor
  · rintro ⟨c, hc, rfl⟩
    cases hn : nodeID? old c with
    | none => exact .inr ⟨rfl, c, hc, hn⟩
    | some i => exact .inl ⟨c, hc, hn⟩
  · rintro (⟨c, hc, hn⟩ | ⟨rfl, c, hc, hn⟩)
    · exact ⟨c, hc, by rw [hn]; rfl⟩
    · exact ⟨c, hc, by rw [hn]; rfl⟩

/-- What is left to show of a case of the update. -/
theorem update_of_assigned {used : List UInt64}
    (hids : mc.newBlockMetadata.consenterIds = new.map fun c => (nodeID? old c).getD fresh)
    (hlookup : ∀ id c, mc.newConsenters.lookup id = some c ↔ c ∈ new ∧ (nodeID? old c).getD fresh = id)
    (hadds : added old new ≠ [] → removed old new = [] →
      fresh ∉ md.consenterIds ++ used ∧ fresh < mc.newBlockMetadata.nextConsenterId)
    (hreplaces : added old new ≠ [] → ∀ e ∈ removed old new, fresh = e.1)
    (hunchanged : mc.confChange = none ↔ ∀ id, id ∈ mc.newBlockMetadata.consenterIds ↔ id ∈ md.consenterIds)
    (hchange : ∀ change voters, mc.confChange = some change → voters ~ md.consenterIds →
      change = confChange mc.newBlockMetadata voters) :
    MembershipUpdate md old new used (fun c => (nodeID? old c).getD fresh) mc := by
  have hg : ∀ c ∈ added old new, (nodeID? old c).getD fresh = fresh := fun c hc => by rw [(mem_added.mp hc).2]; rfl
  refine ⟨hids, hlookup, fun c hc id c' hl heq => ?_, fun c hc hr => ?_, fun c hc e he => ?_, hunchanged, hchange⟩
  · rw [(nodeID?_eq_some h).mpr ⟨c', hl, heq⟩]
    rfl
  · rw [hg c hc]
    exact hadds (ne_nil_of_mem hc) hr
  · rw [hg c hc]
    exact hreplaces (ne_nil_of_mem hc) e he

theorem not_nodeID?_of_removed (hr : removed old new = [(d, c)]) : ∀ c ∈ new, nodeID? old c ≠ some d := by
  intro c hc hn
  have hnot := ((exists_nodeID?_iff h).mp ⟨c, hc, hn⟩).2
  simp [hr] at hnot

theorem mem_of_removed (hr : removed old new = [(d, c)]) : d ∈ md.consenterIds := by
  have hm : (d, c) ∈ removed old new := by simp [hr]
  rw [h.mem_iff, AMap.mem_toPairs.mp (mem_of_mem_filter hm)]
  rfl

include hnew

theorem lookup_retained_eq (ha : added old new = []) :
    (retained old new).lookup id = some c ↔ c ∈ new ∧ (nodeID? old c).getD 0 = id := by
  rw [lookup_retained h hnew, and_congr_right_iff]
  intro hc
  cases hn : nodeID? old c with
  | none => exact absurd (mem_added.mpr ⟨hc, hn⟩) (ha ▸ not_mem_nil)
  | some i => simp

theorem lookup_erase_removed (hr : removed old new = [(d, c)]) :
    ((retained old new).erase d).lookup id = (retained old new).lookup id := by
  by_cases hid : id = d
  · subst hid
    refine (AList.lookup_erase _ _).trans (Option.eq_none_iff_forall_ne_some.mpr fun c hc => ?_).symm
    obtain ⟨hc, hn⟩ := (lookup_retained h hnew).mp hc
    exact not_nodeID?_of_removed h hr c hc hn
  · exact AList.lookup_erase_ne hid

/-- Ids are kept, and the change is the one that raft makes, if the next id is above those in use and is not the last. -/
theorem computeMembershipChanges_correct {used : List UInt64}
    (hused : ∀ id ∈ md.consenterIds ++ used, id < md.nextConsenterId)
    (hnext : md.nextConsenterId < md.nextConsenterId + 1) :
    if 1 < (added old new).length ∨ 1 < (removed old new).length then
      computeMembershipChanges md old new = .err ((added old new).length, (removed old new).length)
    else ∃ mc g, computeMembershipChanges md old new = .ok mc ∧ MembershipUpdate md old new used g mc := by
  rw [computeMembershipChanges]
  have hf : md.nextConsenterId ∉ md.consenterIds ++ used := fun hm => UInt64.lt_irrefl _ (hused _ hm)
  have hnot : md.nextConsenterId ∉ md.consenterIds := fun hm => hf (mem_append_left _ hm)
  rcases ha : added old new with _ | ⟨c, _ | ⟨c₂, added'⟩⟩ <;>
    rcases hr : removed old new with _ | ⟨⟨d, o⟩, _ | ⟨e₂, removed'⟩⟩
  · refine ⟨_, _, rfl, update_of_assigned h rfl (fun id c => lookup_retained_eq h hnew ha) (by simp [ha]) (by simp [ha])
      (iff_of_true rfl fun id => ?_) nofun⟩
    simp [mem_assigned_iff h, ha, hr]
  · have hl : ∀ id c, ((retained old new).erase d).lookup id = some c ↔ c ∈ new ∧ (nodeID? old c).getD 0 = id := by
      intro id c
      rw [lookup_erase_removed h hnew hr, lookup_retained_eq h hnew ha]
    have hm : ∀ id, id ∈ md.consenterIds ↔ id ∈ new.map (fun c => (nodeID? old c).getD 0) ∨ id = d := by
      intro id
      by_cases hid : id = d
      · simp [hid, mem_of_removed h hr]
      · simp [mem_assigned_iff h, ha, hr, hid]
    have hd : d ∉ new.map fun c => (nodeID? old c).getD 0 := by simp [mem_assigned_iff h, ha, hr]
    refine ⟨_, _, rfl, update_of_assigned h rfl hl (by simp [ha]) (by simp [ha])
      (iff_of_false (by simp) fun hall => hd ((hall d).mpr ((hm d).mpr (.inr rfl)))) ?_⟩
    rintro _ voters ⟨rfl⟩ hv
    obtain ⟨hlt, hlast⟩ := lastMissing_eq (hv.nodup_iff.mpr h.nodup) (nodup_assigned hnew hl) hd fun id => hv.mem_iff.trans (hm id)
    rw [confChange, if_neg (Nat.lt_asymm hlt), hlast]
  · rfl
  · have hl := lookup_insert_added h hnew ha fun c hc hid =>
      hnot ((exists_nodeID?_iff h).mp ⟨c, hc, hid⟩).1
    have hm : ∀ id, id ∈ new.map (fun c => (nodeID? old c).getD md.nextConsenterId) ↔
        id ∈ md.consenterIds ∨ id = md.nextConsenterId := by simp [mem_assigned_iff h, ha, hr]
    have hnd := nodup_assigned hnew hl
    rw [← set_ids ha] at hm hnd
    refine ⟨_, _, rfl, update_of_assigned h (set_ids ha) hl (fun _ _ => ⟨hf, hnext⟩) (by simp [hr])
      (iff_of_false (by simp) fun hall => hnot ((hall _).mp ((hm _).mpr (.inr rfl)))) ?_⟩
    rintro _ voters ⟨rfl⟩ hv
    obtain ⟨hlt, hlast⟩ := lastMissing_eq hnd (hv.nodup_iff.mpr h.nodup) (hv.mem_iff.not.mpr hnot) fun id => by
      rw [hm, hv.mem_iff]
    rw [confChange, if_pos hlt, hlast]
  · have hl := lookup_insert_added h hnew ha (not_nodeID?_of_removed h hr)
    have hd := mem_of_removed h hr
    refine ⟨_, _, rfl, update_of_assigned h (set_ids ha) hl (by simp [hr]) (by simp [hr]) (iff_of_true rfl fun id => ?_) nofun⟩
    rw [set_ids ha, mem_assigned_iff h]
    by_cases hid : id = d
    · simp [ha, hid, hd]
    · simp [hr, hid]
  all_goals rfl

end

def firstNode : Consenter := { clientTlsCert := [1] }

def secondNode : Consenter := { clientTlsCert := [2] }

def oneNode : AMap UInt64 Consenter := AList.insert 1 firstNode ∅

theorem lookup_oneNode (id : UInt64) : oneNode.lookup id = if id = 1 then some firstNode else none := by
  by_cases hid : id = 1
  · rw [hid, oneNode, AList.lookup_insert, if_pos rfl]
  · rw [oneNode, AList.lookup_insert_ne hid, AList.lookup_empty, if_neg hid]

theorem corresponds_oneNode (next : UInt64) : Corresponds ⟨[1], next, 0⟩ oneNode := by
  refine ⟨nodup_singleton 1, fun id => ?_, fun id id' c c' h h' _ => ?_⟩
  · by_cases hid : id = 1 <;> simp [lookup_oneNode, hid]
  · rw [lookup_oneNode, Option.ite_none_right_eq_some] at h h'
    rw [h.1, h'.1]

theorem computeMembershipChanges_second : ∃ mc g,
    computeMembershipChanges ⟨[1], 2, 0⟩ oneNode [secondNode, firstNode] = .ok mc ∧
      MembershipUpdate ⟨[1], 2, 0⟩ oneNode [secondNode, firstNode] [] g mc := by
  have hnew : ([secondNode, firstNode].map Consenter.clientTlsCert).Nodup := by decide
  have hused : ∀ id ∈ [1] ++ [], id < (2 : UInt64) := by simp
  have hmc := computeMembershipChanges_correct (corresponds_oneNode 2) hnew hused (by decide)
  rwa [if_neg (by decide)] at hmc

/-- The next id is in use: two consenters get it. -/
theorem next_id_in_use : Corresponds ⟨[1], 1, 0⟩ oneNode ∧ ∃ mc,
    computeMembershipChanges ⟨[1], 1, 0⟩ oneNode [secondNode, firstNode] = .ok mc ∧
      mc.newBlockMetadata.consenterIds = [1, 1] ∧
      ∀ g, ¬ MembershipUpdate ⟨[1], 1, 0⟩ oneNode [secondNode, firstNode] [] g mc := by
  refine ⟨corresponds_oneNode 1, _, rfl, rfl, fun g hg => ?_⟩
  have hid : g secondNode = 1 := ((hg.lookup 1 secondNode).mp rfl).2
  have hadds := (hg.adds secondNode mem_cons_self rfl).1
  rw [hid] at hadds
  exact hadds mem_cons_self

end Drunix.Orderer
