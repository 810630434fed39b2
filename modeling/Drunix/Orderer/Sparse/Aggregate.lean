import Drunix.Orderer.VersionDb
import Drunix.Proto.LiteUtils

namespace Drunix.Orderer.Sparse

open Lib Proto Outcome List

def litePeerChainId : Bytes := ascii "lpeer"

structure TxnDetails where
  indx : UInt64
  txnEnvBytes : Bytes
  txnMVCCStatus : TxValidationCode
  deriving DecidableEq

def TxnDetails.info (txnDetails : TxnDetails) : TxnInfo where
  indexInFatBlock := txnDetails.indx
  txnMVCCStatus := txnDetails.txnMVCCStatus

structure TxnHead where
  txType : HeaderType := .message
  txRWSet : Option TxReadWriteSet := none
  orgsInvolved : List Bytes := []
  deriving DecidableEq

def carriesRWSet : HeaderType → Bool
  | .endorserTransaction | .approve | .commit => true
  | _ => false

def vanillaTxType (txnEnv : Envelope) (txnChanHdr : ChannelHeader) : HeaderType :=
  if txnEnv.type = .message then txnChanHdr.type else txnEnv.type

def vanillaRWSet (codec : Codec) (txnEnv : Envelope) (txType : HeaderType) : Outcome Unit (Option TxReadWriteSet) :=
  if carriesRWSet txType then
    match getLeanEnvFromCommonEnv codec txnEnv with
    | .ok leanEnv => .ok leanEnv.results
    | _ => .panic
  else .ok none

/-- An envelope that does not decode keeps the zero type. The vanilla half is read only when there is
no lean envelope, and then every failure to read it panics. -/
def readTxnEnvelope (codec : Codec) (transactionEnvelopeBytes : Bytes) : Outcome Unit TxnHead :=
  match getEnvelopeFromBlock codec transactionEnvelopeBytes with
  | none => .ok {}
  | some txnEnv =>
    match txnEnv.leanEnv with
    | some leanEnv =>
      .ok {
        txType := txnEnv.type
        txRWSet := if carriesRWSet txnEnv.type then leanEnv.results else none
        orgsInvolved := leanEnv.orgsInvolved }
    | none => do
        let payload ← .deref (unmarshalPayload codec txnEnv.payload)
        let header ← .deref payload.header
        let txnChanHdr ← .deref (unmarshalChannelHeader codec header.channelHeader)
        let txType := vanillaTxType txnEnv txnChanHdr
        let txRWSet ← vanillaRWSet codec txnEnv txType
        return { txType, txRWSet, orgsInvolved := txnChanHdr.orgsInvolved }

section

variable (channelID : Bytes)

def configOrgList : List Bytes :=
  [channelID, litePeerChainId]

def TxnHead.endorserTargets (t : TxnHead) : List Bytes :=
  if t.orgsInvolved = [] then [channelID] else t.orgsInvolved

/-- `orgList`: the chains the envelope is appended to, in order and with repetitions. -/
def TxnHead.orgList (t : TxnHead) : List Bytes :=
  match t.txType, t.txRWSet with
  | .config, _ => configOrgList channelID
  | .approve, some _ | .commit, some _ => configOrgList channelID
  | _, some _ => t.endorserTargets channelID
  | _, none => []

end

structure Aggregate where
  fatTxnDetailsMVCCMap : MvccMap := ∅
  sparseTxnFilterMap : AMap Bytes SparseTxnFilter := ∅
  orgTxnEnvelopeMap : AMap Bytes (List TxnDetails) := ∅
  approveCommitType : Option HeaderType := none

def appendInfo (fatBlockNum : UInt64) (sparseFilter : Option SparseTxnFilter) (txnDetails : TxnDetails) :
    SparseTxnFilter :=
  match sparseFilter with
  | none => ⟨fatBlockNum, [txnDetails.info]⟩
  | some filter => { filter with txnInfoList := filter.txnInfoList ++ [txnDetails.info] }

def appendTxn (envelopes : Option (List TxnDetails)) (txnDetails : TxnDetails) : List TxnDetails :=
  envelopes.getD [] ++ [txnDetails]

def appendFilters (fatBlockNum : UInt64) (filters : AMap Bytes SparseTxnFilter)
    (deliveries : List (Bytes × TxnDetails)) : AMap Bytes SparseTxnFilter :=
  deliveries.foldl (fun m d => m.modify d.1 fun v => appendInfo fatBlockNum v d.2) filters

def appendEnvelopes (envelopes : AMap Bytes (List TxnDetails)) (deliveries : List (Bytes × TxnDetails)) :
    AMap Bytes (List TxnDetails) :=
  deliveries.foldl (fun m d => m.modify d.1 fun v => appendTxn v d.2) envelopes

def Aggregate.deliver (agg : Aggregate) (fatBlockNum : UInt64) (orgList : List Bytes) (txnDetails : TxnDetails) :
    Aggregate :=
  { agg with
    sparseTxnFilterMap := appendFilters fatBlockNum agg.sparseTxnFilterMap (orgList.map (·, txnDetails))
    orgTxnEnvelopeMap := appendEnvelopes agg.orgTxnEnvelopeMap (orgList.map (·, txnDetails)) }

section

variable (codec : Codec) (channelID : Bytes) (mvccApplicable : Bool) (versionDB : VersionDB)
  (fatBlockNum : UInt64)

/-- The in-block map and the status after an envelope; without MVCC the status stays zero. -/
def mvccStep (m : MvccMap) (txnIdx : UInt64) (t : TxnHead) : Outcome Unit (MvccMap × TxValidationCode) :=
  match t.txRWSet with
  | none => .ok (m, .valid)
  | some txRWSet =>
    if mvccApplicable then do
      let (m, valid) ← validateEndorserTxn txRWSet m versionDB fatBlockNum txnIdx
      return (m, mvccStatus valid)
    else .ok (m, .valid)

def aggregateTxn (agg : Aggregate) (txnIndex : Nat) (transactionEnvelopeBytes : Bytes) :
    Outcome Unit Aggregate := do
  let t ← readTxnEnvelope codec transactionEnvelopeBytes
  let indx := UInt64.ofNat txnIndex
  let (m, txnMVCCStatus) ← mvccStep mvccApplicable versionDB fatBlockNum agg.fatTxnDetailsMVCCMap indx t
  let txnDetails : TxnDetails := ⟨indx, transactionEnvelopeBytes, txnMVCCStatus⟩
  let approveCommitType :=
    if t.txRWSet.isSome ∧ (t.txType = .approve ∨ t.txType = .commit) then some t.txType else agg.approveCommitType
  return { agg with fatTxnDetailsMVCCMap := m, approveCommitType }.deliver fatBlockNum (t.orgList channelID) txnDetails

def aggregateFrom (txnIndex : Nat) (agg : Aggregate) : List Bytes → Outcome Unit Aggregate
  | [] => .ok agg
  | b :: bs => do
      let agg ← aggregateTxn codec channelID mvccApplicable versionDB fatBlockNum agg txnIndex b
      aggregateFrom (txnIndex + 1) agg bs

end

def aggregateOrgEnvelope (codec : Codec) (channelID : Bytes) (mvccApplicable : Bool) (versionDB : VersionDB)
    (blk : Block) : Outcome Unit Aggregate :=
  aggregateFrom codec channelID mvccApplicable versionDB blk.header.number 0 {} blk.data

def mvccFrom (mvccApplicable : Bool) (versionDB : VersionDB) (fatBlockNum : UInt64) :
    Nat → MvccMap → List TxnHead → Outcome Unit (List TxValidationCode × MvccMap)
  | _, m, [] => .ok ([], m)
  | txnIndex, m, t :: ts => do
      let (m, status) ← mvccStep mvccApplicable versionDB fatBlockNum m (UInt64.ofNat txnIndex) t
      let (statuses, m) ← mvccFrom mvccApplicable versionDB fatBlockNum (txnIndex + 1) m ts
      return (status :: statuses, m)

def deliveries (channelID : Bytes) (txns : List (TxnHead × TxnDetails)) : List (Bytes × TxnDetails) :=
  txns.flatMap fun e => (e.1.orgList channelID).map (·, e.2)

theorem deliveries_cons (channelID : Bytes) (t : TxnHead) (d : TxnDetails) (txns : List (TxnHead × TxnDetails)) :
    deliveries channelID ((t, d) :: txns) = (t.orgList channelID).map (·, d) ++ deliveries channelID txns :=
  flatMap_cons

def delivered (ds : List (Bytes × TxnDetails)) (org : Bytes) : List TxnDetails :=
  (ds.filter fun d => d.1 = org).map Prod.snd

structure ReadsAs (codec : Codec) (n : Nat) (data : List Bytes) (txns : List (TxnHead × TxnDetails)) : Prop where
  bytes : txns.map (fun e => e.2.txnEnvBytes) = data
  indices : txns.map (fun e => e.2.indx) = (List.range' n data.length).map UInt64.ofNat
  heads : ∀ e ∈ txns, readTxnEnvelope codec e.2.txnEnvBytes = .ok e.1

section

variable {codec : Codec} {n : Nat} {data : List Bytes} {txns : List (TxnHead × TxnDetails)}

theorem ReadsAs.length_eq (h : ReadsAs codec n data txns) : txns.length = data.length := by
  rw [← h.bytes, length_map]

theorem ReadsAs.indx_eq {e : TxnHead × TxnDetails} {i : Nat} (h : ReadsAs codec 0 data txns)
    (he : txns[i]? = some e) : e.2.indx = UInt64.ofNat i := by
  have hi : i < data.length := by
    rw [← h.length_eq]
    exact (List.getElem?_eq_some_iff.mp he).1
  have hid := congrArg (fun l => l[i]?) h.indices
  simpa only [getElem?_map, he, Option.map_some, getElem?_range' hi, Option.some.injEq, Nat.zero_add,
    Nat.one_mul] using hid

theorem ReadsAs.mapM_eq (h : ReadsAs codec n data txns) :
    data.mapM (readTxnEnvelope codec) = .ok (txns.map Prod.fst) := by
  rw [← h.bytes]
  exact mapM_map_eq_ok h.heads

end

variable {agg : Aggregate}

section

variable {codec : Codec} {channelID : Bytes} {mvccApplicable : Bool} {versionDB : VersionDB} {num : UInt64}
  {agg' : Aggregate} {n : Nat}

theorem aggregateFrom_eq_ok {data : List Bytes}
    (h : aggregateFrom codec channelID mvccApplicable versionDB num n agg data = .ok agg') :
    ∃ txns, ReadsAs codec n data txns ∧
      agg'.sparseTxnFilterMap = appendFilters num agg.sparseTxnFilterMap (deliveries channelID txns) ∧
      agg'.orgTxnEnvelopeMap = appendEnvelopes agg.orgTxnEnvelopeMap (deliveries channelID txns) ∧
      mvccFrom mvccApplicable versionDB num n agg.fatTxnDetailsMVCCMap (txns.map Prod.fst) =
        .ok (txns.map fun e => e.2.txnMVCCStatus, agg'.fatTxnDetailsMVCCMap) := by
  induction data generalizing n agg with
  | nil =>
    simp only [aggregateFrom, Outcome.ok.injEq] at h
    subst h
    exact ⟨[], ⟨rfl, rfl, by simp⟩, rfl, rfl, rfl⟩
  | cons b data ih =>
    simp only [aggregateFrom, bind_eq_ok] at h
    obtain ⟨agg₁, hst, hrs⟩ := h
    simp only [aggregateTxn, bind_eq_ok, pure_eq, Outcome.ok.injEq] at hst
    obtain ⟨t, ht, ⟨m, status⟩, hm, rfl⟩ := hst
    obtain ⟨txns, hr, hfs, hes, hms⟩ := ih hrs
    refine ⟨(t, ⟨UInt64.ofNat n, b, status⟩) :: txns, ⟨?_, ?_, ?_⟩, ?_, ?_, ?_⟩
    · rw [map_cons, hr.bytes]
    · rw [map_cons, hr.indices, length_cons, range'_succ, map_cons]
    · simpa [ht] using hr.heads
    · rw [hfs]
      exact foldl_append.symm
    · rw [hes]
      exact foldl_append.symm
    · change mvccFrom mvccApplicable versionDB num (n + 1) m _ = _ at hms
      simp only [map_cons, mvccFrom, hm, hms, ok_bind, pure_eq]

end

theorem foldl_appendTxn (l : List TxnDetails) (v : Option (List TxnDetails)) :
    l.foldl (fun v d => some (appendTxn v d)) v = if l = [] then v else some (v.getD [] ++ l) := by
  induction l generalizing v with
  | nil => rfl
  | cons d l ih =>
    rw [foldl_cons, ih]
    cases l <;> simp [appendTxn]

theorem foldl_appendInfo (num : UInt64) (l : List TxnDetails) (v : Option SparseTxnFilter) :
    l.foldl (fun v d => some (appendInfo num v d)) v =
      if l = [] then v
      else some ⟨v.elim num SparseTxnFilter.fatBlockNumber,
        v.elim [] SparseTxnFilter.txnInfoList ++ l.map TxnDetails.info⟩ := by
  induction l generalizing v with
  | nil => rfl
  | cons d l ih =>
    rw [foldl_cons, ih]
    cases v <;> cases l <;> simp [appendInfo]

theorem lookup_appendEnvelopes (ds : List (Bytes × TxnDetails)) (org : Bytes) :
    (appendEnvelopes ∅ ds).lookup org = if delivered ds org = [] then none else some (delivered ds org) := by
  rw [appendEnvelopes, AMap.lookup_foldl_modify fun v d => appendTxn v d]
  have h := foldl_appendTxn (delivered ds org) none
  rwa [delivered, foldl_map] at h

theorem lookup_appendFilters (num : UInt64) (ds : List (Bytes × TxnDetails)) (org : Bytes) :
    (appendFilters num ∅ ds).lookup org =
      if delivered ds org = [] then none else some ⟨num, (delivered ds org).map TxnDetails.info⟩ := by
  rw [appendFilters, AMap.lookup_foldl_modify fun v d => appendInfo num v d]
  have h := foldl_appendInfo num (delivered ds org) none
  rwa [delivered, foldl_map] at h

/-- The two maps after the loop: a chain that receives something has the envelopes delivered to it,
in order, and a filter with one entry for each of them. -/
structure Aggregate.Collects (agg : Aggregate) (num : UInt64) (ds : List (Bytes × TxnDetails)) : Prop where
  filters : ∀ org, agg.sparseTxnFilterMap.lookup org =
    if delivered ds org = [] then none else some ⟨num, (delivered ds org).map TxnDetails.info⟩
  envelopes : ∀ org, agg.orgTxnEnvelopeMap.lookup org =
    if delivered ds org = [] then none else some (delivered ds org)

theorem aggregateOrgEnvelope_eq_ok {codec : Codec} {channelID : Bytes} {mvccApplicable : Bool} {versionDB : VersionDB}
    {blk : Block} (h : aggregateOrgEnvelope codec channelID mvccApplicable versionDB blk = .ok agg) :
    ∃ txns, ReadsAs codec 0 blk.data txns ∧ agg.Collects blk.header.number (deliveries channelID txns) ∧
      mvccFrom mvccApplicable versionDB blk.header.number 0 ∅ (txns.map Prod.fst) =
        .ok (txns.map fun e => e.2.txnMVCCStatus, agg.fatTxnDetailsMVCCMap) := by
  obtain ⟨txns, hr, hf, he, hm⟩ := aggregateFrom_eq_ok h
  refine ⟨txns, hr, ⟨?_, ?_⟩, hm⟩
  · intro org
    rw [hf, lookup_appendFilters]
  · intro org
    rw [he, lookup_appendEnvelopes]

theorem Aggregate.Collects.lookup {num : UInt64} {ds : List (Bytes × TxnDetails)} (h : agg.Collects num ds)
    {org : Bytes} {details : List TxnDetails} (hd : agg.orgTxnEnvelopeMap.lookup org = some details) :
    details = delivered ds org ∧ details ≠ [] ∧
      agg.sparseTxnFilterMap.lookup org = some ⟨num, details.map TxnDetails.info⟩ := by
  have hen := h.envelopes org
  rw [hd] at hen
  by_cases he : delivered ds org = []
  · rw [if_pos he] at hen
    cases hen
  · rw [if_neg he] at hen
    obtain rfl := Option.some.inj hen
    exact ⟨rfl, he, by rw [h.filters, if_neg he]⟩

end Drunix.Orderer.Sparse
