import Drunix.Peer.CommitPaths

namespace Drunix.Peer

open Lib Proto Ledger Ledger.Validation Outcome List

/-- How the state database loads the committed version of a key; absent if it does not load versions in bulk. -/
abbrev BulkLoad := Option (Bytes × Bytes → Outcome Unit Unit)

structure ReadKeys where
  pubKeys : List (Bytes × Bytes)
  hashedKeys : List (Bytes × Bytes)

def ReadKeys.all (keys : ReadKeys) : List (Bytes × Bytes) :=
  keys.pubKeys ++ keys.hashedKeys

def hashedReadKeys (ns coll : Bytes) (hashedReads : List KVReadHash) : List (Bytes × Bytes) :=
  hashedReads.map fun kvHashedRead => (deriveHashedDataNs ns coll, kvHashedRead.keyHash)

def readKeys (rwset : Vanilla.TxRwSet) : ReadKeys where
  pubKeys := rwset.nsRwSets.flatMap fun nsRWSet => nsRWSet.kvRwSet.reads.map fun kvRead => (nsRWSet.nameSpace, kvRead.key)
  hashedKeys := rwset.nsRwSets.flatMap fun nsRWSet => nsRWSet.collHashedRwSets.flatMap fun coll =>
    hashedReadKeys nsRWSet.nameSpace coll.collectionName coll.hashedRwSet.hashedReads

def ltxNsReadKeys (nsRWSet : NsReadWriteSet) : Outcome Unit ReadKeys := do
  let rwset ← .deref nsRWSet.rwset
  let hashedKeys ← nsRWSet.collectionHashedRwset.mapM fun coll => do
    let hashedRwset ← .deref coll.hashedRwset
    return hashedReadKeys nsRWSet.nameSpace coll.collectionName hashedRwset.hashedReads
  return ⟨rwset.reads.map fun kvRead => (nsRWSet.nameSpace, kvRead.key), hashedKeys.flatten⟩

def ltxReadKeys (rwset : TxReadWriteSet) : Outcome Unit ReadKeys := do
  let keys ← rwset.nsRwset.mapM ltxNsReadKeys
  return ⟨keys.flatMap ReadKeys.pubKeys, keys.flatMap ReadKeys.hashedKeys⟩

section

variable {τ : Type}

/-- The versions of the keys of all transactions, valid or not; the public keys come before the key hashes. -/
def preLoadCommittedVersions (load : BulkLoad) (keysOf : τ → Outcome Unit ReadKeys) (txs : List τ) : Outcome Unit Unit :=
  match load with
  | none => .ok ()
  | some load => do
      let keys ← txs.mapM keysOf
      (keys.flatMap ReadKeys.pubKeys ++ keys.flatMap ReadKeys.hashedKeys).forM load

def preLoadCommittedVersionOfRSet (load : BulkLoad) : List Transaction → Outcome Unit Unit :=
  preLoadCommittedVersions load fun tx => .ok (readKeys tx.rwset)

def preLoadCommittedVersionOfLtxRSet (load : BulkLoad) : List LtxTransaction → Outcome Unit Unit :=
  preLoadCommittedVersions load fun tx => ltxReadKeys tx.rwset

end

abbrev PreparedBlock := List TxValidationCode × PublicAndHashUpdates × PvtUpdates

section

variable (s : CommitSupport) (load : BulkLoad) (doMVCCValidation : Bool) (store : StateStore) (blk : FlaggedBlock)
  (pvtdata : UInt64 → Option TxPvtData)

/-- `ValidateAndPrepareBatch`, from the transactions that `preprocessProtoBlock` returns. -/
def vanillaBatch (es : List (TxValidationCode × Option Transaction)) : Outcome Unit PreparedBlock := do
  let b : Validation.Block := ⟨blk.number, es.filterMap Prod.snd, blk.sparseFilter s⟩
  preLoadCommittedVersionOfRSet load b.txs
  let (codes, u, _) ← validateAndPrepareBatch s.hashFunc s.serializeKVReads store s.sha256 s.serialize b doMVCCValidation
  let pvtUpdates ← validateAndPreparePvtBatch s.sha256 s.unmarshalKVRWSet u store.db b codes pvtdata
  return (postprocessFlags es codes, u, pvtUpdates)

/-- `ValidateAndPrepareBatchLtx`, from the transactions that `preprocessLtxProtoBlock` returns. -/
def liteBatch (es : List (TxValidationCode × Option LtxTransaction)) (txs : List LtxTransaction) :
    Outcome Unit PreparedBlock := do
  let b : LtxBlock := ⟨blk.number, txs, blk.sparseFilter s⟩
  preLoadCommittedVersionOfLtxRSet load txs
  let (codes, u) ← validateAndPrepareLtxBatch s.validateLtxRangeQuery store.db s.sha256 s.serialize b doMVCCValidation
    newPubAndHashUpdates txs
  let pvtUpdates ← validateAndPrepareLtxPvtBatch s.sha256 s.unmarshalKVRWSet u store.db b codes pvtdata
  return (postprocessFlags es codes, u, pvtUpdates)

def prepareLoaded : CommitPath → Outcome Unit PreparedBlock
  | .vanilla => do
      let es ← preprocessTxs (preprocessTx s) 0 blk.block.data blk.flags
      vanillaBatch s load doMVCCValidation store blk pvtdata es
  | .lite => do
      let es ← preprocessTxs (preprocessLtxTx s) 0 blk.block.data blk.flags
      let txs ← es.mapM fun e => .deref e.2
      liteBatch s load doMVCCValidation store blk pvtdata es txs

section

variable {τ : Type}

def passOver (i : ℕ) (preprocessTx : ℕ → TxValidationCode → Bytes → Outcome Unit (TxValidationCode × Option τ))
    (txIndex : ℕ) (flag : TxValidationCode) (envBytes : Bytes) : Outcome Unit (TxValidationCode × Option τ) :=
  if txIndex = i then .ok (flag, none) else preprocessTx txIndex flag envBytes

end

def prepareWithout (i : ℕ) : CommitPath → Outcome Unit PreparedBlock
  | .vanilla => do
      let es ← preprocessTxs (passOver i (preprocessTx s)) 0 blk.block.data blk.flags
      vanillaBatch s load doMVCCValidation store blk pvtdata es
  | .lite => do
      let es ← preprocessTxs (passOver i (preprocessLtxTx s)) 0 blk.block.data blk.flags
      let txs ← (es.eraseIdx i).mapM fun e => .deref e.2
      liteBatch s load doMVCCValidation store blk pvtdata es txs

end

variable {n i : ℕ}

section

variable {τ : Type} {preprocessTx : ℕ → TxValidationCode → Bytes → Outcome Unit (TxValidationCode × Option τ)}
  {data : List Bytes} {flags : List TxValidationCode} {flag : TxValidationCode}

theorem preprocessTxs_passOver_of_lt (h : i < n) (data : List Bytes) (flags : List TxValidationCode) :
    preprocessTxs (passOver i preprocessTx) n data flags = preprocessTxs preprocessTx n data flags := by
  induction data generalizing n flags with
  | nil => rfl
  | cons b data ih =>
    cases flags with
    | nil => rfl
    | cons flag flags => rw [preprocessTxs, preprocessTxs, passOver, if_neg h.ne', ih (by omega)]

theorem preprocessTxs_passOver {k : ℕ} (hk : n + k = i) {b : Bytes} (hb : data[k]? = some b)
    (hf : flags[k]? = some flag) {e : TxValidationCode × Option τ} (he : preprocessTx i flag b = .ok e) :
    ∃ entries : Outcome Unit (List (TxValidationCode × Option τ) × List (TxValidationCode × Option τ)),
      (∀ es₁ es₂, entries = .ok (es₁, es₂) → es₁.length = k) ∧
      preprocessTxs preprocessTx n data flags = (entries >>= fun es => .ok (es.1 ++ e :: es.2)) ∧
      preprocessTxs (passOver i preprocessTx) n data flags =
        (entries >>= fun es => .ok (es.1 ++ (flag, none) :: es.2)) := by
  induction data generalizing n k flags with
  | nil => cases hb
  | cons b₁ data ih =>
    cases flags with
    | nil => cases hf
    | cons flag₁ flags =>
      cases k with
      | zero =>
        cases hb
        cases hf
        obtain rfl : n = i := hk
        refine ⟨preprocessTxs preprocessTx (n + 1) data flags >>= fun es => .ok ([], es), ?_, ?_, ?_⟩
        · intro es₁ es₂ hes
          obtain ⟨es, -, heq⟩ := bind_eq_ok.mp hes
          cases heq
          rfl
        · simp [preprocessTxs, he]
        · simp [preprocessTxs, passOver, preprocessTxs_passOver_of_lt]
      | succ k =>
        obtain ⟨entries, hln, hwt, hw⟩ := ih (n := n + 1) (by omega) hb hf
        refine ⟨do
          let e₁ ← preprocessTx n flag₁ b₁
          let es ← entries
          return (e₁ :: es.1, es.2), ?_, ?_, ?_⟩
        · intro es₁ es₂ hes
          simp only [bind_eq_ok, pure_eq, ok.injEq, Prod.mk.injEq] at hes
          obtain ⟨e₁, -, es, hes, rfl, -⟩ := hes
          rw [length_cons, hln es.1 es.2 hes]
        · simp [preprocessTxs, hwt]
        · simp [preprocessTxs, hw, passOver, show n ≠ i by omega]

theorem postprocessFlags_insertIdx {tx : τ} {es₁ es₂ : List (TxValidationCode × Option τ)}
    {codes : List TxValidationCode} (hlen : (es₁.filterMap Prod.snd).length ≤ codes.length) :
    postprocessFlags (es₁ ++ (flag, some tx) :: es₂) (codes.insertIdx (es₁.filterMap Prod.snd).length flag) =
      postprocessFlags (es₁ ++ (flag, none) :: es₂) codes := by
  induction es₁ generalizing codes with
  | nil => rfl
  | cons e es₁ ih =>
    obtain ⟨flag₁, tx₁⟩ := e
    cases tx₁ with
    | none => exact congrArg (flag₁ :: ·) (ih hlen)
    | some tx₁ =>
      cases codes with
      | nil => cases hlen
      | cons code codes => exact congrArg (code :: ·) (ih (Nat.le_of_succ_le_succ hlen))

theorem getElem?_postprocessFlags (es₁ es₂ : List (TxValidationCode × Option τ)) (flag : TxValidationCode)
    (codes : List TxValidationCode) :
    (postprocessFlags (es₁ ++ (flag, none) :: es₂) codes)[es₁.length]? = some flag := by
  induction es₁ generalizing codes with
  | nil => rfl
  | cons e es₁ ih =>
    obtain ⟨flag₁, tx₁⟩ := e
    cases tx₁ with
    | none => exact ih codes
    | some tx₁ =>
      cases codes with
      | nil => exact ih []
      | cons code codes => exact ih codes

theorem valid_insertIdx (hf : flag ≠ .valid) (tx : τ) (txs₁ txs₂ : List τ) (codes : List TxValidationCode) :
    valid (txs₁ ++ tx :: txs₂) (codes.insertIdx txs₁.length flag) = valid (txs₁ ++ txs₂) codes := by
  induction txs₁ generalizing codes with
  | nil => exact (valid_cons tx txs₂ flag codes).trans (if_neg hf)
  | cons tx₁ txs₁ ih =>
    cases codes with
    | nil => rfl
    | cons code codes =>
      rw [cons_append, cons_append, length_cons, insertIdx_succ_cons, valid_cons, valid_cons, ih]

def BulkLoad.Loads (load : BulkLoad) (keys : Outcome Unit ReadKeys) : Prop :=
  ∀ f ∈ load, ∃ k, keys = .ok k ∧ ∀ key ∈ k.all, f key = .ok ()

theorem forM_append_of_ok {α : Type} {f : α → Outcome Unit Unit} {l : List α} (hl : ∀ a ∈ l, f a = .ok ()) (l₁ l₂ : List α) :
    (l₁ ++ (l ++ l₂)).forM f = (l₁ ++ l₂).forM f := by
  have hok := forM_eq_ok.mpr hl
  rw [forM_eq_forM] at hok ⊢
  rw [forM_append, forM_append, forM_append, hok]
  rfl

theorem preLoadCommittedVersions_of_loads {load : BulkLoad} {keysOf : τ → Outcome Unit ReadKeys} {tx : τ}
    (h : load.Loads (keysOf tx)) (txs₁ txs₂ : List τ) :
    preLoadCommittedVersions load keysOf (txs₁ ++ tx :: txs₂) = preLoadCommittedVersions load keysOf (txs₁ ++ txs₂) := by
  cases load with
  | none => rfl
  | some f =>
    obtain ⟨k, hk, hl⟩ := h f rfl
    simp only [ReadKeys.all, mem_append] at hl
    simp only [preLoadCommittedVersions, mapM_append, mapM_cons, hk, bind_assoc, pure_bind, ok_bind,
      flatMap_append, flatMap_cons]
    congr 1
    funext keys₁
    congr 1
    funext keys₂
    -- The keys of the transaction stand in two places.
    have hh := forM_append_of_ok (fun key hky => hl key (.inr hky))
      (keys₁.flatMap ReadKeys.pubKeys ++ (keys₂.flatMap ReadKeys.pubKeys ++ keys₁.flatMap ReadKeys.hashedKeys))
      (keys₂.flatMap ReadKeys.hashedKeys)
    simp only [append_assoc] at hh ⊢
    rw [forM_append_of_ok fun key hky => hl key (.inl hky), hh]

theorem loads_of_preLoadCommittedVersions {load : BulkLoad} {keysOf : τ → Outcome Unit ReadKeys} {tx : τ}
    (h : preLoadCommittedVersions load keysOf [tx] = .ok ()) : load.Loads (keysOf tx) := by
  rintro f rfl
  simp only [preLoadCommittedVersions, mapM_cons, mapM_nil, bind_eq_ok, pure_eq, ok.injEq] at h
  obtain ⟨keys, ⟨k, hk, -, rfl, rfl⟩, hl⟩ := h
  rw [forM_eq_ok, flatMap_singleton, flatMap_singleton] at hl
  exact ⟨k, hk, hl⟩

end

section

variable {s : CommitSupport} {load : BulkLoad} {doMVCC : Bool} {store : StateStore} {blk : FlaggedBlock}
  {pvtdata : UInt64 → Option TxPvtData}

theorem vanillaBatch_of_invalid {tx : Transaction} (htx : tx.validationCode ≠ .valid)
    (hl : load.Loads (.ok (readKeys tx.rwset))) (es₁ es₂ : List (TxValidationCode × Option Transaction)) :
    vanillaBatch s load doMVCC store blk pvtdata (es₁ ++ (tx.validationCode, some tx) :: es₂) =
      vanillaBatch s load doMVCC store blk pvtdata (es₁ ++ (tx.validationCode, none) :: es₂) := by
  have hwt : (es₁ ++ (tx.validationCode, some tx) :: es₂).filterMap Prod.snd =
      es₁.filterMap Prod.snd ++ tx :: es₂.filterMap Prod.snd := by simp
  have hw : (es₁ ++ (tx.validationCode, (none : Option Transaction)) :: es₂).filterMap Prod.snd =
      es₁.filterMap Prod.snd ++ es₂.filterMap Prod.snd := by simp
  rw [vanillaBatch, vanillaBatch, hwt, hw]
  rw [preLoadCommittedVersionOfRSet,
    @preLoadCommittedVersions_of_loads _ load (fun tx : Transaction => .ok (readKeys tx.rwset)) tx hl]
  congr 1
  funext _
  rw [validateAndPrepareBatch, prepareTxs,
    mapAccumM_skip fun r => prepareTx_eq_ok_iff.mpr ⟨if_neg htx, .inr ⟨htx, rfl, rfl⟩⟩, bind_assoc]
  -- The heights of the other transactions do not depend on the list.
  refine bind_eq_bind_iff.mpr ?_
  rintro ⟨codes, u, tracker⟩ hc
  have hlen := (prepareTxs_recommit _ _ rfl hc).1
  rw [length_append] at hlen
  rw [pure_bind]
  dsimp only
  rw [validateAndPreparePvtBatch, validateAndPreparePvtBatch]
  rw [valid_insertIdx htx, postprocessFlags_insertIdx (by omega)]

theorem liteBatch_of_invalid {tx : LtxTransaction} (htx : tx.validationCode ≠ .valid)
    (hl : load.Loads (ltxReadKeys tx.rwset)) {es₁ es₂ : List (TxValidationCode × Option LtxTransaction)}
    {txs₁ : List LtxTransaction} (ht₁ : es₁.map Prod.snd = txs₁.map some) (txs₂ : List LtxTransaction) :
    liteBatch s load doMVCC store blk pvtdata (es₁ ++ (tx.validationCode, some tx) :: es₂) (txs₁ ++ tx :: txs₂) =
      liteBatch s load doMVCC store blk pvtdata (es₁ ++ (tx.validationCode, none) :: es₂) (txs₁ ++ txs₂) := by
  rw [liteBatch]
  rw [preLoadCommittedVersionOfLtxRSet,
    @preLoadCommittedVersions_of_loads _ load (fun tx : LtxTransaction => ltxReadKeys tx.rwset) tx hl]
  congr 1
  funext _
  rw [validateAndPrepareLtxBatch,
    mapAccumM_skip fun u => validateAndPrepareTx_eq_ok_iff.mpr ⟨if_neg htx, .inr ⟨htx, rfl⟩⟩, bind_assoc]
  refine bind_eq_bind_iff.mpr ?_
  rintro ⟨codes, u⟩ hc
  have hlen := (validateAndPrepareLtxBatch_recommit _ _ rfl hc).1
  rw [length_append] at hlen
  have ht : es₁.filterMap Prod.snd = txs₁ := filterMap_of_map_eq ht₁
  rw [pure_bind]
  dsimp only
  rw [validateAndPrepareLtxPvtBatch, validateAndPrepareLtxPvtBatch]
  rw [valid_insertIdx htx, ← ht, postprocessFlags_insertIdx (by rw [ht]; omega)]

end

section

variable (s : CommitSupport) (load : BulkLoad) (flag : TxValidationCode)

/-- A write set that is refused sets its own flag; one that is accepted has its read keys loaded. -/
def WriteSetTolerated (rwset : Vanilla.TxRwSet) : Prop :=
  if s.validateWriteset rwset then load.Loads (.ok (readKeys rwset)) else flag = .invalidWriteset

/-- The envelopes that do no harm under the flag. On the vanilla path the envelope, its payload and its channel header
are decoded, the channel header is there, and what is refused on the way sets the flag that the transaction has
already; on the lite path the lite half, with its meta and its results, is there or can be converted. -/
def Tolerated (envBytes : Bytes) : CommitPath → Prop
  | .vanilla => ∃ env payload header chdr, getEnvelopeFromBlock s.codec envBytes = some env ∧
      unmarshalPayload s.codec env.payload = some payload ∧ payload.header = some header ∧
      unmarshalChannelHeader s.codec header.channelHeader = some chdr ∧
      if chdr.type = .endorserTransaction then
        match getActionFromEnvelopeMsg s.codec env with
        | .err _ => flag = .nilTxaction
        | .panic => False
        | .ok respPayload =>
          match s.codec.txRwSet.unmarshal respPayload.results with
          | none => flag = .invalidOtherReason
          | some rwset => WriteSetTolerated s load flag rwset
      else
        match processNonEndorserTx payload chdr.type with
        | .ok rwset => ∀ r ∈ rwset, WriteSetTolerated s load flag r
        | _ => False
  | .lite => ∃ env leanenv rwset, getEnvelopeFromBlock s.codec envBytes = some env ∧
      leanEnvOf s.codec env = .ok leanenv ∧ leanenv.envMeta ≠ none ∧ leanenv.results = some rwset ∧
      load.Loads (ltxReadKeys rwset)

/-- A transaction that does no harm to its block: it keeps its flag, and the preparation comes out as without it. -/
structure Harmless (path : CommitPath) (doMVCCValidation : Bool) (store : StateStore) (blk : FlaggedBlock)
    (pvtdata : UInt64 → Option TxPvtData) (i : ℕ) : Prop where
  keepsCode : ∀ flags u pvtUpdates,
    prepareLoaded s load doMVCCValidation store blk pvtdata path = .ok (flags, u, pvtUpdates) → flags[i]? = some flag
  sameOutcome : prepareLoaded s load doMVCCValidation store blk pvtdata path =
    prepareWithout s load doMVCCValidation store blk pvtdata i path

end

section

variable {s : CommitSupport} {load : BulkLoad} {flag : TxValidationCode} {b : Bytes}

theorem writeSetTolerated_iff {rwset : Vanilla.TxRwSet} :
    WriteSetTolerated s load flag rwset ↔ ∃ tx, preprocessTx.checked s n flag rwset = .ok (flag, tx) ∧
      ∀ t ∈ tx, t.validationCode = flag ∧ load.Loads (.ok (readKeys t.rwset)) := by
  rw [WriteSetTolerated, preprocessTx.checked]
  split
  next =>
    constructor
    · intro hl
      refine ⟨some ⟨n, rwset, flag⟩, rfl, fun t ht => ?_⟩
      cases ht
      exact ⟨rfl, hl⟩
    · rintro ⟨tx, htx, hl⟩
      cases htx
      exact (hl _ rfl).2
  next =>
    constructor
    · rintro rfl
      exact ⟨none, rfl, by simp⟩
    · rintro ⟨tx, htx, -⟩
      cases htx
      rfl

theorem tolerated_vanilla_iff (n : ℕ) :
    Tolerated s load flag b .vanilla ↔ ∃ tx, preprocessTx s n flag b = .ok (flag, tx) ∧
      ∀ t ∈ tx, t.validationCode = flag ∧ load.Loads (.ok (readKeys t.rwset)) := by
  simp only [Tolerated, preprocessTx, bind_eq_ok, orErr_eq_ok, deref_eq_ok, ← exists_and_left, ← exists_and_right, and_assoc]
  refine .trans (exists_congr fun env => ?_) exists_comm
  refine .trans (exists_congr fun payload => ?_) exists_comm
  refine .trans (exists_congr fun header => ?_) exists_comm
  refine .trans (exists_congr fun chdr => ?_) exists_comm
  simp only [exists_and_left]
  refine and_congr_right fun _ => and_congr_right fun _ => and_congr_right fun _ => and_congr_right fun _ => ?_
  -- the envelope is decoded: what is refused from here on sets a flag
  split
  next =>
    cases getActionFromEnvelopeMsg s.codec env with
    | err e => simp [eq_comm]
    | panic => simp
    | ok respPayload =>
      dsimp only
      cases s.codec.txRwSet.unmarshal respPayload.results with
      | none => simp [eq_comm]
      | some rwset => exact writeSetTolerated_iff
  next =>
    cases processNonEndorserTx payload chdr.type with
    | err e => simp
    | panic => simp
    | ok rwset =>
      cases rwset with
      | none => simp
      | some rwset => simpa using writeSetTolerated_iff

theorem tolerated_lite_iff (n : ℕ) :
    Tolerated s load flag b .lite ↔ ∃ rwset, preprocessLtxTx s n flag b = .ok (flag, some ⟨n, rwset, flag⟩) ∧
      load.Loads (ltxReadKeys rwset) := by
  simp only [Tolerated, preprocessLtxTx, preprocessLtx, bind_eq_ok, orErr_eq_ok, mapErr_eq_ok,
    deref_eq_ok, pure_eq, ok.injEq, Prod.mk.injEq, true_and]
  constructor
  · rintro ⟨env, leanenv, rwset, he, hl, hm, hrs, hld⟩
    obtain ⟨envMeta, hm⟩ := Option.ne_none_iff_exists'.mp hm
    exact ⟨rwset, ⟨env, he, some rwset, ⟨leanenv, hl, envMeta, hm, hrs⟩, rfl⟩, hld⟩
  · rintro ⟨rwset, ⟨env, he, results, ⟨leanenv, hl, envMeta, hm, hrs⟩, hsm⟩, hld⟩
    obtain ⟨rwset', rfl, heq⟩ := Option.map_eq_some_iff.mp hsm
    cases heq
    exact ⟨env, leanenv, rwset, he, hl, by rw [hm]; simp, hrs, hld⟩

variable {pvtdata : UInt64 → Option TxPvtData} {blk : FlaggedBlock} {store : StateStore} {r : PreparedBlock}
  {doMVCC : Bool}

theorem Tolerated.harmless_vanilla (hf : flag ≠ .valid) (h : Tolerated s load flag b .vanilla)
    (hb : blk.block.data[i]? = some b) (hi : blk.flags[i]? = some flag) :
    Harmless s load flag .vanilla doMVCC store blk pvtdata i := by
  obtain ⟨tx, htx, hl⟩ := (tolerated_vanilla_iff i).mp h
  obtain ⟨entries, hln, hwt, hw⟩ := preprocessTxs_passOver (Nat.zero_add i) hb hi htx
  have hsm : prepareLoaded s load doMVCC store blk pvtdata .vanilla =
      prepareWithout s load doMVCC store blk pvtdata i .vanilla := by
    rw [prepareLoaded, prepareWithout, hwt, hw, bind_assoc, bind_assoc]
    congr 1
    funext es
    cases tx with
    | none => rfl
    | some tx =>
      obtain ⟨rfl, hk⟩ := hl tx rfl
      exact vanillaBatch_of_invalid hf hk es.1 es.2
  refine ⟨fun flags u pvtUpdates hpr => ?_, hsm⟩
  simp only [hsm, prepareWithout, hw, bind_assoc, ok_bind, vanillaBatch, bind_eq_ok, pure_eq, ok.injEq] at hpr
  obtain ⟨⟨es₁, es₂⟩, hes, -, -, r, -, p, -, heq⟩ := hpr
  cases heq
  rw [← hln es₁ es₂ hes]
  exact getElem?_postprocessFlags es₁ es₂ flag r.1

theorem Tolerated.harmless_lite (hf : flag ≠ .valid) (h : Tolerated s load flag b .lite)
    (hb : blk.block.data[i]? = some b) (hi : blk.flags[i]? = some flag) :
    Harmless s load flag .lite doMVCC store blk pvtdata i := by
  obtain ⟨rwset, htx, hl⟩ := (tolerated_lite_iff i).mp h
  obtain ⟨entries, hln, hwt, hw⟩ := preprocessTxs_passOver (Nat.zero_add i) hb hi htx
  have hsm : prepareLoaded s load doMVCC store blk pvtdata .lite =
      prepareWithout s load doMVCC store blk pvtdata i .lite := by
    rw [prepareLoaded, prepareWithout, hwt, hw, bind_assoc, bind_assoc, bind_eq_bind_iff]
    rintro ⟨es₁, es₂⟩ hes
    have he : (es₁ ++ (flag, (none : Option LtxTransaction)) :: es₂).eraseIdx i = es₁ ++ es₂ := by
      rw [← hln es₁ es₂ hes, eraseIdx_append_of_length_le le_rfl]
      simp
    simp only [ok_bind, he, mapM_append, mapM_cons, bind_assoc, pure_bind, deref]
    rw [bind_eq_bind_iff]
    intro txs₁ ht₁
    congr 1
    funext txs₂
    exact liteBatch_of_invalid hf hl (mapM_deref_eq_ok.mp ht₁) txs₂
  refine ⟨fun flags u pvtUpdates hpr => ?_, hsm⟩
  simp only [hsm, prepareWithout, hw, bind_assoc, ok_bind, liteBatch, bind_eq_ok, pure_eq, ok.injEq] at hpr
  obtain ⟨⟨es₁, es₂⟩, hes, txs, -, -, -, r, -, p, -, heq⟩ := hpr
  cases heq
  rw [← hln es₁ es₂ hes]
  exact getElem?_postprocessFlags es₁ es₂ flag r.1

def soleBlock (flag : TxValidationCode) (b : Bytes) : FlaggedBlock where
  block := { header := { number := 0 }, data := [b] }
  flags := [flag]

theorem tolerated_vanilla_of_prepareLoaded {r : PublicAndHashUpdates × PvtUpdates}
    (h : prepareLoaded s load true .empty (soleBlock flag b) (fun _ => none) .vanilla = .ok ([flag], r)) :
    Tolerated s load flag b .vanilla := by
  rw [tolerated_vanilla_iff 0]
  simp only [prepareLoaded, soleBlock, preprocessTxs, bind_eq_ok, pure_eq, ok.injEq] at h
  obtain ⟨es, ⟨⟨flag', tx⟩, htx, -, rfl, rfl⟩, hb⟩ := h
  simp only [vanillaBatch, bind_eq_ok, pure_eq, ok.injEq, Prod.mk.injEq] at hb
  obtain ⟨_, hl, ⟨codes, u, tracker⟩, -, pvtUpdates, -, hf, -⟩ := hb
  cases readsAs_of_preprocessTx htx with
  | refused code ha =>
    rw [ha] at htx
    cases htx
    cases hf
    exact ⟨none, ha _, by simp⟩
  | empty ha => exact ⟨none, ha flag, by simp⟩
  | tx rwset ha =>
    rw [ha] at htx
    cases htx
    refine ⟨_, ha flag, fun t ht => ?_⟩
    cases ht
    exact ⟨rfl, @loads_of_preLoadCommittedVersions _ load (fun tx : Transaction => .ok (readKeys tx.rwset)) _ hl⟩

theorem tolerated_lite_of_prepareLoaded
    (h : prepareLoaded s load true .empty (soleBlock flag b) (fun _ => none) .lite = .ok r) :
    Tolerated s load flag b .lite := by
  rw [tolerated_lite_iff 0]
  simp only [prepareLoaded, soleBlock, preprocessTxs, bind_eq_ok, pure_eq, ok.injEq] at h
  obtain ⟨es, ⟨⟨flag', tx⟩, htx, -, rfl, rfl⟩, txs, ht, hb⟩ := h
  simp only [liteBatch, bind_eq_ok] at hb
  obtain ⟨_, hl, -⟩ := hb
  have hr := htx
  simp only [preprocessLtxTx, bind_eq_ok, orErr_eq_ok, pure_eq, ok.injEq, Prod.mk.injEq] at hr
  obtain ⟨env, -, results, -, rfl, hrs⟩ := hr
  obtain ⟨t, rfl, rfl⟩ := map_eq_singleton_iff.mp (mapM_deref_eq_ok.mp ht).symm
  obtain ⟨rwset, rfl, rfl⟩ := Option.map_eq_some_iff.mp hrs
  exact ⟨rwset, htx, @loads_of_preLoadCommittedVersions _ load (fun tx : LtxTransaction => ltxReadKeys tx.rwset) _ hl⟩

/-- A transaction that is flagged invalid before MVCC does no harm to any block exactly if its bytes are tolerated. -/
theorem harmless_iff_tolerated (s : CommitSupport) (load : BulkLoad) (path : CommitPath) {flag : TxValidationCode}
    (hflag : flag ≠ .valid) (envBytes : Bytes) :
    (∀ doMVCC store blk pvtdata (i : ℕ), blk.block.data[i]? = some envBytes → blk.flags[i]? = some flag →
      Harmless s load flag path doMVCC store blk pvtdata i) ↔ Tolerated s load flag envBytes path := by
  constructor
  · intro h
    have hsl := (h true .empty (soleBlock flag envBytes) (fun _ => none) 0 rfl rfl).sameOutcome
    rw [show prepareWithout s load true .empty (soleBlock flag envBytes) (fun _ => none) 0 path =
      .ok ([flag], newPubAndHashUpdates, ∅) by cases path <;> cases load <;> rfl] at hsl
    cases path with
    | vanilla => exact tolerated_vanilla_of_prepareLoaded hsl
    | lite => exact tolerated_lite_of_prepareLoaded hsl
  · intro h doMVCC store blk pvtdata i hb hi
    cases path with
    | vanilla => exact h.harmless_vanilla hflag hb hi
    | lite => exact h.harmless_lite hflag hb hi

end

theorem harmless_of_liteWrite :
    Tolerated liteSupport (some fun _ => .ok ()) .endorsementPolicyFailure [0x01] .lite ∧
      ∀ doMVCC store blk pvtdata (i : ℕ), blk.block.data[i]? = some [0x01] →
        blk.flags[i]? = some .endorsementPolicyFailure →
        Harmless liteSupport (some fun _ => .ok ()) .endorsementPolicyFailure .lite doMVCC store blk pvtdata i := by
  have ht : Tolerated liteSupport (some fun _ => .ok ()) .endorsementPolicyFailure [0x01] .lite := by
    refine ⟨liteWrite, _, _, rfl, rfl, by simp, rfl, fun f hf => ?_⟩
    cases hf
    exact ⟨_, rfl, fun _ _ => rfl⟩
  exact ⟨ht, (harmless_iff_tolerated liteSupport _ .lite (by decide) [0x01]).mpr ht⟩

def emptyEndorserSupport : CommitSupport where
  __ := liteSupport
  codec := { Codec.none with
    envelope := .ofTable [] [({ payload := some [0x70] }, [0x02])]
    payload := .ofTable [] [({ header := some { channelHeader := some [0x63], signatureHeader := [] } }, [0x70])]
    channelHeader := .ofTable [] [({ type := .endorserTransaction, channelId := ascii "ch", txId := [] }, [0x63])] }

def invalidNeighbour : FlaggedBlock where
  block := { header := { number := 0 }, data := [[0x01], [0x02]] }
  flags := [.valid, .badPayload]

/-- Bytes that are not an envelope stop the valid transaction before them on both paths, a missing header panics, and
an endorser transaction without an action gets another code. -/
theorem invalid_transaction_stops_block :
    prepareLoaded liteSupport none true .empty invalidNeighbour (fun _ => none) .lite = .err () ∧
    (∃ r, prepareWithout liteSupport none true .empty invalidNeighbour (fun _ => none) 1 .lite =
      .ok ([.valid, .badPayload], r)) ∧
    prepareLoaded liteSupport none true .empty (soleBlock .badPayload [0x02]) (fun _ => none) .vanilla = .err () ∧
    prepareLoaded liteSupport none true .empty (soleBlock .badCommonHeader [0x01]) (fun _ => none) .vanilla = .panic ∧
    ∃ r, prepareLoaded emptyEndorserSupport none true .empty (soleBlock .badCreatorSignature [0x02]) (fun _ => none)
      .vanilla = .ok ([.nilTxaction], r) :=
  ⟨rfl, ⟨_, rfl⟩, rfl, rfl, _, rfl⟩

end Drunix.Peer
