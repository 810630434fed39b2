import Drunix.Peer.CommitPaths

namespace Drunix.Peer

open Lib Proto Ledger.Validation Outcome

section

variable (codec : Codec)

def EndorserRwset (envBytes : Bytes) (rwset : Vanilla.TxRwSet) : Prop :=
  ∃ env payload header chdr respPayload,
    getEnvelopeFromBlock codec envBytes = some env ∧ unmarshalPayload codec env.payload = some payload ∧
    payload.header = some header ∧ unmarshalChannelHeader codec header.channelHeader = some chdr ∧
    chdr.type = .endorserTransaction ∧ getActionFromEnvelopeMsg codec env = .ok respPayload ∧
    codec.txRwSet.unmarshal respPayload.results = some rwset

def PublicWrite (envBytes ns key : Bytes) : Prop :=
  ∃ rwset, EndorserRwset codec envBytes rwset ∧
    ∃ nsRwSet ∈ rwset.nsRwSets, nsRwSet.nameSpace = ns ∧ ∃ w ∈ nsRwSet.kvRwSet.writes, w.key = key

/-- Blocks that are recommitted by the vanilla path: config blocks and blocks that are not lite. -/
def FlaggedBlock.IsVanilla (blk : FlaggedBlock) : Prop :=
  recommitPath codec blk.block.data = .ok .vanilla

instance (blk : FlaggedBlock) : Decidable (blk.IsVanilla codec) :=
  inferInstanceAs (Decidable (_ = _))

def Recorded (blocks : List FlaggedBlock) (k : HistoryKey) : Prop :=
  ∃ blk ∈ blocks, blk.IsVanilla codec ∧ k.blockNo = blk.number ∧
    ∃ i envBytes, blk.block.data[i]? = some envBytes ∧ blk.flags[i]? = some .valid ∧ k.tranNo = UInt64.ofNat i ∧
      PublicWrite codec envBytes k.ns k.key

def lastVanilla (blocks : List FlaggedBlock) : Option Nat :=
  blocks.foldl (fun last blk => if blk.IsVanilla codec then some blk.number.toNat else last) none

end

variable {codec : Codec} {blockNo : UInt64} {b : Bytes} {keys : List HistoryKey} {k : HistoryKey} {n : Nat}
  {data : List Bytes} {flags : List TxValidationCode}

theorem mem_txHistory {tranNo : Nat} (h : txHistory codec blockNo tranNo b = .ok keys) :
    k ∈ keys ↔ k.blockNo = blockNo ∧ k.tranNo = UInt64.ofNat tranNo ∧ PublicWrite codec b k.ns k.key := by
  simp only [txHistory, bind_eq_ok, orErr_eq_ok, deref_eq_ok] at h
  obtain ⟨env, he, payload, hp, header, hh, chdr, hc, h⟩ := h
  by_cases ht : chdr.type = .endorserTransaction
  · rw [if_pos ht] at h
    simp only [bind_eq_ok, orErr_eq_ok, pure_eq, ok.injEq] at h
    obtain ⟨respPayload, hr, rwset, hrw, rfl⟩ := h
    simp only [List.mem_flatMap, List.mem_map]
    constructor
    · rintro ⟨ns, hns, w, hw, rfl⟩
      exact ⟨rfl, rfl, rwset, ⟨env, payload, header, chdr, respPayload, he, hp, hh, hc, ht, hr,
        hrw⟩, ns, hns, rfl, w, hw, rfl⟩
    · rintro ⟨hno, htr, rwset', ⟨env', payload', header', chdr', respPayload', he', hp', hh', hc', _,
        hrs', hr'⟩, ns, hns, hn, w, hw, hk⟩
      obtain rfl := Option.some.inj (he.symm.trans he')
      obtain rfl := ok.inj (hr.symm.trans hrs')
      obtain rfl := Option.some.inj (hrw.symm.trans hr')
      refine ⟨ns, hns, w, hw, ?_⟩
      rw [hn, hk, ← hno, ← htr]
  · rw [if_neg ht] at h
    cases h
    refine iff_of_false List.not_mem_nil ?_
    rintro ⟨_, _, rwset', ⟨env', payload', header', chdr', _, he', hp', hh', hc', ht', _⟩, _⟩
    obtain rfl := Option.some.inj (he.symm.trans he')
    obtain rfl := Option.some.inj (hp.symm.trans hp')
    obtain rfl := Option.some.inj (hh.symm.trans hh')
    obtain rfl := Option.some.inj (hc.symm.trans hc')
    exact ht ht'

theorem mem_blockHistory (h : blockHistory codec blockNo n data flags = .ok keys) :
    k ∈ keys ↔ k.blockNo = blockNo ∧ ∃ i envBytes, data[i]? = some envBytes ∧ flags[i]? = some .valid ∧
      k.tranNo = UInt64.ofNat (n + i) ∧ PublicWrite codec envBytes k.ns k.key := by
  induction data generalizing n flags keys with
  | nil =>
    cases h
    simp
  | cons b data ih =>
    cases flags with
    | nil => cases h
    | cons flag flags =>
      simp only [blockHistory, bind_eq_ok, pure_eq, ok.injEq] at h
      obtain ⟨first, hf, rest, hr, rfl⟩ := h
      have hm : k ∈ first ↔ flag = .valid ∧ k.blockNo = blockNo ∧ k.tranNo = UInt64.ofNat n ∧
          PublicWrite codec b k.ns k.key := by
        by_cases hfl : flag = .valid
        · rw [flaggedHistory, if_pos hfl] at hf
          rw [mem_txHistory hf]
          exact (and_iff_right hfl).symm
        · rw [flaggedHistory, if_neg hfl] at hf
          cases hf
          exact iff_of_false List.not_mem_nil fun hc => hfl hc.1
      rw [List.mem_append, hm, ih hr]
      constructor
      · rintro (⟨rfl, hno, ht, hw⟩ | ⟨hno, i, envBytes, hd, hvl, ht, hw⟩)
        · exact ⟨hno, 0, b, rfl, rfl, ht, hw⟩
        · refine ⟨hno, i + 1, envBytes, hd, hvl, ?_, hw⟩
          rw [ht, Nat.add_assoc, Nat.add_comm 1 i]
      · rintro ⟨hno, i, envBytes, hd, hvl, ht, hw⟩
        cases i with
        | zero =>
          obtain rfl := Option.some.inj hd
          exact Or.inl ⟨Option.some.inj hvl, hno, ht, hw⟩
        | succ i =>
          refine Or.inr ⟨hno, i, envBytes, hd, hvl, ?_, hw⟩
          rw [ht, Nat.add_assoc, Nat.add_comm 1 i]

end Drunix.Peer
