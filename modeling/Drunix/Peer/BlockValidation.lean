import Drunix.Peer.EndorsedSet

namespace Drunix.Peer

open Lib Proto List

abbrev TxResult := Outcome TxFailure Bytes

structure PeerAdapter where
  codec : Codec
  crypto : CryptoProvider
  cr : ChannelResources
  lcr : LifecycleResources
  policies : Policies
  vpmgr : VpManager
  leanFormatEnabled : Bool
  batchSize : Nat

namespace PeerAdapter

variable (a : PeerAdapter)

def validateTxAt (tIdx : Nat) (env : Envelope) : TxResult :=
  validateTx a.codec a.crypto a.cr a.lcr a.policies (baseCheck a.policies a.vpmgr (UInt64.ofNat tIdx))
    a.cr.checkTxIdDupsLedger env

def handle (tIdx : Nat) (data : Bytes) : Handling :=
  match getEnvelopeFromBlock a.codec data with
  | none => .result (.err (.invalid .invalidOtherReason))
  | some env =>
    if a.leanFormatEnabled then handleLtx a.cr (a.validateTxAt tIdx) env
    else handleVanilla a.codec a.cr (a.validateTxAt tIdx) env

def handlings (data : List Bytes) : List (Nat × Handling) :=
  data.zipIdx.map fun d => (d.2, a.handle d.2 d.1)

def txId (data : Bytes) : Option Bytes := do
  let env ← getEnvelopeFromBlock a.codec data
  if a.leanFormatEnabled ∧ env.type = .endorserTransaction then env.leanEnv.map LeanEnvelope.txId
  else
    match payloadChannelHeader a.codec env with
    | .ok chdr => some chdr.txId
    | _ => none

end PeerAdapter

def localResults (hs : List (Nat × Handling)) : List (Nat × TxResult) :=
  hs.filterMap fun h =>
    match h.2 with
    | .result r => some (h.1, r)
    | .toService => none

def serviceTxns (hs : List (Nat × Handling)) : List Nat :=
  hs.filterMap fun h =>
    match h.2 with
    | .result _ => none
    | .toService => some h.1

def batches {α : Type} (size : Nat) : List α → List (List α)
  | [] => []
  | x :: xs => (x :: xs.take (size - 1)) :: batches size (xs.drop (size - 1))
termination_by xs => xs.length
decreasing_by rw [length_drop, length_cons]; omega

abbrev VsccService := List Nat → Option (Nat → TxValidationCode)

def VsccService.result (service : VsccService) (batch : List Nat) (tIdx : Nat) : TxResult :=
  match service batch with
  | none => .err .halt
  | some code => if code tIdx = .valid then .ok [] else .err (.invalid (code tIdx))

def VsccService.batchResults (service : VsccService) (batch : List Nat) : List (Nat × TxResult) :=
  batch.map fun tIdx => (tIdx, service.result batch tIdx)

/-- A run of the workers and of the service for a block: in which order the workers gather transactions
for the service, what it answers, and in which order all results arrive. -/
structure Arrivals (hs : List (Nat × Handling)) (size : Nat) where
  endorsersTxns : List Nat
  gathered : endorsersTxns.Perm (serviceTxns hs)
  service : VsccService
  results : List (Nat × TxResult)
  arrived : results.Perm (localResults hs ++ (batches size endorsersTxns).flatMap service.batchResults)

structure Collected where
  errPos : Option Nat := none
  txsfltr : List TxValidationCode
  txidArray : List Bytes

def Collected.new (n : Nat) : Collected where
  txsfltr := List.replicate n .notValidated
  txidArray := List.replicate n []

inductive BlockFailure where
  | txFailed (errPos : Nat)
  | skippedValidation (id : Nat)
  deriving DecidableEq

def collect (st : Collected) (res : Nat × TxResult) : Outcome BlockFailure Collected :=
  match res.2 with
  | .panic => .panic
  | .err .halt => .ok { st with errPos := some ((st.errPos.map fun p => min p res.1).getD res.1) }
  | .err (.invalid code) => .ok { st with txsfltr := st.txsfltr.set res.1 code }
  | .ok txid => .ok { st with txsfltr := st.txsfltr.set res.1 .valid, txidArray := st.txidArray.set res.1 txid }

def markTXIdDuplicates (txidMap : List Bytes) : List (Bytes × TxValidationCode) → List TxValidationCode
  | [] => []
  | (txid, flag) :: txs =>
    if txid = [] then flag :: markTXIdDuplicates txidMap txs
    else if txid ∈ txidMap then .duplicateTxid :: markTXIdDuplicates txidMap txs
    else flag :: markTXIdDuplicates (txid :: txidMap) txs

def allValidated (txsfltr : List TxValidationCode) : Outcome BlockFailure (List TxValidationCode) :=
  match txsfltr.findIdx? fun flag => flag = .notValidated with
  | some id => .err (.skippedValidation id)
  | none => .ok txsfltr

def validateResults (n : Nat) (results : List (Nat × TxResult)) : Outcome BlockFailure (List TxValidationCode) := do
  let st ← results.foldlM collect (.new n)
  match st.errPos with
  | some errPos => .err (.txFailed errPos)
  | none => allValidated (markTXIdDuplicates [] (st.txidArray.zip st.txsfltr))

/-! ### Batches and arrivals -/

theorem batches_flatten {α : Type} (size : Nat) (l : List α) : (batches size l).flatten = l := by
  fun_induction batches size l with
  | case1 => rfl
  | case2 x xs ih => rw [flatten_cons, ih, cons_append, take_append_drop]

theorem localResults_keys_perm (hs : List (Nat × Handling)) :
    ((localResults hs).map Prod.fst ++ serviceTxns hs).Perm (hs.map Prod.fst) := by
  induction hs with
  | nil => rfl
  | cons h hs ih =>
    obtain ⟨tIdx, ha⟩ := h
    cases ha with
    | result r => exact ih.cons tIdx
    | toService => exact perm_middle.trans (ih.cons tIdx)

namespace Arrivals

variable {hs : List (Nat × Handling)} {size : Nat} (run : Arrivals hs size)

def batchOf (tIdx : Nat) : Option (List Nat) :=
  (batches size run.endorsersTxns).find? fun batch => tIdx ∈ batch

def verdict (tIdx : Nat) : Handling → TxResult
  | .result r => r
  | .toService => ((run.batchOf tIdx).map fun batch => run.service.result batch tIdx).getD .panic

theorem results_keys_perm : (run.results.map Prod.fst).Perm (hs.map Prod.fst) := by
  have hb : ∀ bs : List (List Nat), (bs.flatMap run.service.batchResults).map Prod.fst = bs.flatten := by
    intro bs
    induction bs with
    | nil => rfl
    | cons b bs ih => simp [flatMap_cons, VsccService.batchResults, Function.comp_def, ih]
  have hp := run.arrived.map Prod.fst
  rw [map_append, hb, batches_flatten] at hp
  exact hp.trans ((run.gathered.append_left _).trans (localResults_keys_perm hs))

theorem mem_results {tIdx : Nat} {ha : Handling} (h : (tIdx, ha) ∈ hs) :
    (tIdx, run.verdict tIdx ha) ∈ run.results := by
  rw [run.arrived.mem_iff, mem_append]
  cases ha with
  | result r => exact .inl (mem_filterMap.mpr ⟨_, h, rfl⟩)
  | toService =>
    right
    have hm : tIdx ∈ (batches size run.endorsersTxns).flatten := by
      rw [batches_flatten, run.gathered.mem_iff]
      exact mem_filterMap.mpr ⟨_, h, rfl⟩
    obtain ⟨batch, hbt, htx⟩ := mem_flatten.mp hm
    have hsm : (run.batchOf tIdx).isSome := by
      rw [batchOf, find?_isSome]
      exact ⟨batch, hbt, by simpa using htx⟩
    obtain ⟨b, hb⟩ := Option.isSome_iff_exists.mp hsm
    have hin : tIdx ∈ b := by simpa using find?_some hb
    refine mem_flatMap.mpr ⟨b, mem_of_find?_eq_some hb, mem_map.mpr ⟨tIdx, hin, ?_⟩⟩
    rw [verdict, hb]
    rfl

end Arrivals

end Drunix.Peer
