import Drunix.Orderer.Sparse.Aggregate

namespace Drunix.Orderer.Sparse

open Lib Proto List

def TxnHead.toEveryChain (t : TxnHead) : Bool :=
  match t.txType with
  | .config | .approve | .commit => true
  | _ => false

/-- Whether the envelope is meant for a chain: config, approve and commit transactions for every
chain, endorser transactions for the chains they name. -/
def TxnHead.addressedTo (channelID : Bytes) (t : TxnHead) (org : Bytes) : Bool :=
  match t.txType with
  | .config | .approve | .commit => true
  | .endorserTransaction => org ∈ t.endorserTargets channelID
  | _ => false

def addressed (channelID : Bytes) (ts : List TxnHead) (org : Bytes) : List Nat :=
  (ts.zipIdx.filter fun e => e.1.addressedTo channelID org).map Prod.snd

theorem addressed_increasing (channelID : Bytes) (ts : List TxnHead) (org : Bytes) :
    (addressed channelID ts org).Pairwise (· < ·) := by
  have hs : (addressed channelID ts org).Sublist (List.range ts.length) := by
    have h := (filter_sublist (p := fun e : TxnHead × Nat => e.1.addressedTo channelID org)
      (l := ts.zipIdx)).map Prod.snd
    rwa [zipIdx_map_snd, ← range_eq_range'] at h
  exact pairwise_lt_range.sublist hs

/-- When a fat block is split as meant: endorser transactions carry a read-write set and name no
chain twice; a config, approve or commit transaction is the only kind of traffic beside transactions
for the chain of the channel and the lite peer chain, which are two chains. -/
structure SplitCondition (channelID : Bytes) (ts : List TxnHead) : Prop where
  endorser : ∀ t ∈ ts, t.txType = .endorserTransaction → t.txRWSet.isSome ∧ t.orgsInvolved.Nodup
  everyChain : ∀ t ∈ ts, t.toEveryChain = true →
    (∀ u ∈ ts, u.txType ≠ .config ∧ u.txRWSet = none) ∨
      (t.txType = .config ∨ t.txRWSet.isSome) ∧ channelID ≠ litePeerChainId ∧
        ∀ u ∈ ts, u.txType = .endorserTransaction → ∀ org ∈ u.endorserTargets channelID,
          org = channelID ∨ org = litePeerChainId

variable {org : Bytes}

section

variable {channelID : Bytes} {t u : TxnHead} {ts : List TxnHead}

theorem TxnHead.endorserTargets_ne_nil : t.endorserTargets channelID ≠ [] := by
  unfold endorserTargets
  split
  · simp
  · assumption

theorem TxnHead.nodup_endorserTargets : (t.endorserTargets channelID).Nodup ↔ t.orgsInvolved.Nodup := by
  unfold endorserTargets
  split
  · simp [*]
  · rfl

theorem TxnHead.orgList_endorser (h : t.txType = .endorserTransaction) :
    t.orgList channelID = if t.txRWSet.isSome then t.endorserTargets channelID else [] := by
  cases hr : t.txRWSet <;> simp [orgList, h, hr]

theorem TxnHead.orgList_toEveryChain (h : t.toEveryChain = true) :
    t.orgList channelID = if t.txType = .config ∨ t.txRWSet.isSome then configOrgList channelID else [] := by
  cases ht : t.txType <;> cases hr : t.txRWSet <;> simp_all [orgList, toEveryChain]

theorem TxnHead.orgList_eq_nil : t.orgList channelID = [] ↔ t.txType ≠ .config ∧ t.txRWSet = none := by
  cases ht : t.txType <;> cases hr : t.txRWSet <;>
    simp [orgList, ht, hr, configOrgList, endorserTargets_ne_nil]

structure Balanced (channelID : Bytes) (ts : List TxnHead) : Prop where
  once : ∀ org, (∃ u ∈ ts, org ∈ u.orgList channelID) →
    ∀ t ∈ ts, (t.orgList channelID).count org = if t.addressedTo channelID org then 1 else 0
  delivered : ∀ t ∈ ts, t.txType = .endorserTransaction → t.orgList channelID ≠ []

theorem TxnHead.addressedTo_toEveryChain (h : t.toEveryChain = true) (org : Bytes) :
    t.addressedTo channelID org = true := by
  cases ht : t.txType <;> simp_all [addressedTo, toEveryChain]

def TxnHead.Read (t : TxnHead) : Prop :=
  t.txRWSet.isSome → carriesRWSet t.txType = true

theorem TxnHead.Read.cases (channelID : Bytes) (h : t.Read) :
    t.txType = .endorserTransaction ∨ t.toEveryChain = true ∨
      t.orgList channelID = [] ∧ ∀ org, t.addressedTo channelID org = false := by
  cases ht : t.txType <;> cases hr : t.txRWSet <;>
    simp_all [toEveryChain, orgList, addressedTo, Read, carriesRWSet]

section

variable (h : Balanced channelID ts) (ht : t ∈ ts)
include h ht

theorem Balanced.endorser (he : t.txType = .endorserTransaction) :
    t.orgList channelID = t.endorserTargets channelID ∧ t.txRWSet.isSome ∧ t.orgsInvolved.Nodup := by
  have hsm : t.txRWSet.isSome := by
    by_contra hn
    exact h.delivered t ht he (by rw [TxnHead.orgList_endorser he, if_neg hn])
  have hl : t.orgList channelID = t.endorserTargets channelID := by
    rw [TxnHead.orgList_endorser he, if_pos hsm]
  have hnd : (t.endorserTargets channelID).Nodup := by
    rw [nodup_iff_count_le_one]
    intro org
    by_cases ho : org ∈ t.endorserTargets channelID
    · have hc := h.once org ⟨t, ht, hl ▸ ho⟩ t ht
      rw [hl] at hc
      rw [hc]
      split <;> omega
    · rw [count_eq_zero_of_not_mem ho]
      omega
  exact ⟨hl, hsm, TxnHead.nodup_endorserTargets.mp hnd⟩

theorem Balanced.count_toEveryChain (he : t.toEveryChain = true) (hu : u ∈ ts) (ho : org ∈ u.orgList channelID) :
    (t.orgList channelID).count org = 1 := by
  rw [h.once org ⟨u, hu, ho⟩ t ht, TxnHead.addressedTo_toEveryChain he, if_pos rfl]

theorem Balanced.orgList_toEveryChain (he : t.toEveryChain = true) (hu : u ∈ ts) (hne : u.orgList channelID ≠ []) :
    t.orgList channelID = configOrgList channelID ∧ (t.txType = .config ∨ t.txRWSet.isSome) := by
  obtain ⟨org, ho⟩ := exists_mem_of_ne_nil _ hne
  have hcn : t.txType = .config ∨ t.txRWSet.isSome := by
    by_contra hn
    have hc := h.count_toEveryChain ht he hu ho
    rw [TxnHead.orgList_toEveryChain he, if_neg hn] at hc
    simp at hc
  refine ⟨?_, hcn⟩
  rw [TxnHead.orgList_toEveryChain he, if_pos hcn]

end

theorem Balanced.splitCondition (h : Balanced channelID ts) : SplitCondition channelID ts where
  endorser := by
    intro t ht hen
    exact (h.endorser ht hen).2
  everyChain := by
    intro t ht he
    by_cases ha : ∀ u ∈ ts, u.orgList channelID = []
    · exact Or.inl fun u hu => TxnHead.orgList_eq_nil.mp (ha u hu)
    push Not at ha
    obtain ⟨u, hu, hne⟩ := ha
    obtain ⟨hl, hcn⟩ := h.orgList_toEveryChain ht he hu hne
    refine Or.inr ⟨hcn, ?_, ?_⟩
    · intro heq
      have hm : channelID ∈ t.orgList channelID := by simp [hl, configOrgList]
      have hc := h.count_toEveryChain ht he ht hm
      simp [hl, configOrgList, ← heq] at hc
    · intro v hv hen org ho
      have hc := h.count_toEveryChain ht he hv ((h.endorser hv hen).1 ▸ ho)
      have hpos : 0 < (configOrgList channelID).count org := by
        rw [← hl]
        omega
      simpa [configOrgList] using count_pos_iff.mp hpos

theorem SplitCondition.balanced (h : SplitCondition channelID ts) (hr : ∀ t ∈ ts, t.Read) :
    Balanced channelID ts where
  once := by
    rintro org ⟨u, hu, ho⟩ t ht
    rcases (hr t ht).cases channelID with hend | he | ⟨hnil, ha⟩
    · obtain ⟨hsm, hnd⟩ := h.endorser t ht hend
      rw [TxnHead.orgList_endorser hend, if_pos hsm, (TxnHead.nodup_endorserTargets.mpr hnd).count]
      simp [TxnHead.addressedTo, hend]
    · rw [TxnHead.addressedTo_toEveryChain he, if_pos rfl]
      rcases h.everyChain t ht he with hn | ⟨hc, hne, hen⟩
      · rw [TxnHead.orgList_eq_nil.mpr (hn u hu)] at ho
        cases ho
      rw [TxnHead.orgList_toEveryChain he, if_pos hc]
      have hm : org = channelID ∨ org = litePeerChainId := by
        rcases (hr u hu).cases channelID with hend | he' | ⟨hnil, _⟩
        · rw [TxnHead.orgList_endorser hend, if_pos (h.endorser u hu hend).1] at ho
          exact hen u hu hend org ho
        · rw [TxnHead.orgList_toEveryChain he'] at ho
          split at ho
          · simpa [configOrgList] using ho
          · cases ho
        · rw [hnil] at ho
          cases ho
      have hnd : (configOrgList channelID).Nodup := by simpa [configOrgList] using hne
      rw [hnd.count, if_pos (by simpa [configOrgList] using hm)]
    · rw [hnil, ha]
      rfl
  delivered := by
    intro t ht hend
    rw [TxnHead.orgList_endorser hend, if_pos (h.endorser t ht hend).1]
    exact TxnHead.endorserTargets_ne_nil

end

def positions (channelID : Bytes) (ts : List TxnHead) (org : Bytes) : List Nat :=
  ts.zipIdx.flatMap fun e => List.replicate ((e.1.orgList channelID).count org) e.2

variable {channelID : Bytes} {ts : List TxnHead}

theorem mem_positions {i : Nat} :
    i ∈ positions channelID ts org ↔ ∃ t, ts[i]? = some t ∧ org ∈ t.orgList channelID := by
  simp only [positions, mem_flatMap, mem_replicate, Prod.exists, mem_zipIdx_iff_getElem?]
  constructor
  · rintro ⟨t, j, ht, hc, rfl⟩
    exact ⟨t, ht, count_pos_iff.mp (Nat.pos_of_ne_zero hc)⟩
  · rintro ⟨t, ht, ho⟩
    exact ⟨t, i, ht, (count_pos_iff.mpr ho).ne', rfl⟩

theorem positions_eq_addressed_iff :
    positions channelID ts org = addressed channelID ts org ↔
      ∀ t ∈ ts, (t.orgList channelID).count org = if t.addressedTo channelID org then 1 else 0 := by
  have hnd : (ts.zipIdx.map Prod.snd).Nodup := by
    rw [zipIdx_map_snd]
    exact nodup_range'
  rw [positions, addressed, flatMap_replicate_eq_filter_iff (fun t => (t.orgList channelID).count org)
    (fun t => t.addressedTo channelID org) hnd]
  constructor
  · intro h t ht
    obtain ⟨i, hi⟩ := mem_iff_getElem?.mp ht
    exact h (t, i) (mem_zipIdx_iff_getElem?.mpr hi)
  · intro h e he
    exact h e.1 (mem_of_getElem? (mem_zipIdx_iff_getElem?.mp he))

end Drunix.Orderer.Sparse
