import Drunix.Orderer.Sparse.ChainRun

namespace Drunix.Orderer

open Lib Proto Ledger Outcome

def CommittedMatch (db : VersionDB) (read : Bytes × Option Version) : Prop :=
  db read.1 = none ∨ db read.1 = read.2

def committedReads (nsRwSet : NsReadWriteSet) : List (Bytes × Option Version) :=
  (nsRwSet.rwset.elim [] KVRWSet.reads).map (fun r => (encodeDataKey nsRwSet.nameSpace r.key, r.version)) ++
    nsRwSet.collectionHashedRwset.flatMap fun c => (c.hashedRwset.elim [] HashedRWSet.hashedReads).map
      fun r => (encodeDataKey nsRwSet.nameSpace r.keyHash, r.version)

def writtenKeys (nsRwSet : NsReadWriteSet) : List Bytes :=
  (nsRwSet.rwset.elim [] KVRWSet.writes).map (fun w => encodeDataKey nsRwSet.nameSpace w.key) ++
    nsRwSet.collectionHashedRwset.flatMap fun c => (c.hashedRwset.elim [] HashedRWSet.hashedWrites).map
      fun w => encodeDataKey (deriveHashedDataNs nsRwSet.nameSpace c.collectionName) w.keyHash

section

variable {db db' : VersionDB} {nsRwSet : NsReadWriteSet}

theorem validateVersion_congr (read : Bytes × Option Version) (h : CommittedMatch db read ↔ CommittedMatch db' read)
    (updatedInBlock : Bool) :
    validateVersion updatedInBlock (db read.1) read.2 = validateVersion updatedInBlock (db' read.1) read.2 := by
  rw [Bool.eq_iff_iff, validateVersion_eq_true, validateVersion_eq_true]
  exact and_congr_right fun _ => h

section

variable (h : ∀ read ∈ committedReads nsRwSet, CommittedMatch db read ↔ CommittedMatch db' read) (m : MvccMap)
include h

theorem validateReadSet_congr : validateReadSet m db nsRwSet = validateReadSet m db' nsRwSet := by
  rw [validateReadSet, validateReadSet, bind_eq_bind_iff]
  intro rwset hrw
  rw [deref_eq_ok] at hrw
  rw [pure_eq, pure_eq, ok.injEq]
  apply all_congr_of_mem
  intro r hr
  refine validateVersion_congr (encodeDataKey nsRwSet.nameSpace r.key, r.version) (h _ ?_) _
  rw [committedReads, hrw]
  exact List.mem_append_left _ (List.mem_map_of_mem hr)

theorem validateNsHashedReadSets_congr :
    validateNsHashedReadSets m db nsRwSet = validateNsHashedReadSets m db' nsRwSet := by
  apply all_congr
  intro coll hc
  rw [bind_eq_bind_iff]
  intro hashedRwset hh
  rw [deref_eq_ok] at hh
  rw [pure_eq, pure_eq, ok.injEq]
  apply all_congr_of_mem
  intro r hr
  refine validateVersion_congr (encodeDataKey nsRwSet.nameSpace r.keyHash, r.version) (h _ ?_) _
  refine List.mem_append_right _ (List.mem_flatMap.mpr ⟨coll, hc, ?_⟩)
  rw [hh]
  exact List.mem_map_of_mem hr

end

theorem validateEndorserTxn_congr {txRWSet : TxReadWriteSet}
    (h : ∀ read ∈ txRWSet.nsRwset.flatMap committedReads, CommittedMatch db read ↔ CommittedMatch db' read)
    (m : MvccMap) (fatBlockNum txnIdx : UInt64) :
    validateEndorserTxn txRWSet m db fatBlockNum txnIdx = validateEndorserTxn txRWSet m db' fatBlockNum txnIdx := by
  have ha : all (validateNameSpaceReadSet m db) txRWSet.nsRwset =
      all (validateNameSpaceReadSet m db') txRWSet.nsRwset := by
    apply all_congr
    intro nsRwSet hns
    have hrd : ∀ read ∈ committedReads nsRwSet, CommittedMatch db read ↔ CommittedMatch db' read :=
      fun read hr => h read (List.mem_flatMap.mpr ⟨nsRwSet, hns, hr⟩)
    rw [validateNameSpaceReadSet, validateNameSpaceReadSet, validateReadSet_congr hrd,
      validateNsHashedReadSets_congr hrd]
  rw [validateEndorserTxn, validateEndorserTxn, ha]

end

theorem applyBatch_apply (m : MvccMap) (db : VersionDB) (k : Bytes) :
    applyBatch m db k = (m.lookup k).elim (db k) fun vv => if vv.isDelete then none else some vv.version :=
  AMap.overlay_apply id _ m db k fun _ _ he => he

theorem applyBatch_applyBatch (m : MvccMap) (db : VersionDB) : applyBatch m (applyBatch m db) = applyBatch m db := by
  funext k
  rw [applyBatch_apply, applyBatch_apply]
  cases m.lookup k <;> rfl

theorem lookup_applyNameSpaceWriteSet {nsRwSet : NsReadWriteSet} {m m' : MvccMap} {version : Version} {k : Bytes}
    (hk : k ∉ writtenKeys nsRwSet) (h : applyNameSpaceWriteSet m version nsRwSet = .ok m') :
    m'.lookup k = m.lookup k := by
  obtain ⟨rwset, hrw, h⟩ := bind_eq_ok.mp h
  rw [deref_eq_ok] at hrw
  rw [writtenKeys, hrw, List.mem_append, not_or] at hk
  refine foldlM_invariant (fun m' => m'.lookup k = m.lookup k) ?_ ?_ h
  · intro c hc m₁ m₂ hm₁ hs
    obtain ⟨hashedRwset, hh, hs⟩ := bind_eq_ok.mp hs
    rw [deref_eq_ok] at hh
    cases hs
    rw [← hm₁]
    refine AMap.foldl_frame (AList.lookup k) (fun m w hw => AList.lookup_insert_ne fun he => hk.2 ?_) m₁
    exact List.mem_flatMap.mpr ⟨c, hc, by rw [hh, he]; exact List.mem_map_of_mem hw⟩
  · refine AMap.foldl_frame (AList.lookup k) (fun m w hw => AList.lookup_insert_ne fun he => hk.1 ?_) m
    rw [he]
    exact List.mem_map_of_mem hw

namespace Sparse

def TxnHead.committedReads (t : TxnHead) : List (Bytes × Option Version) :=
  t.txRWSet.elim [] fun txRWSet => txRWSet.nsRwset.flatMap Orderer.committedReads

def TxnHead.writtenKeys (t : TxnHead) : List Bytes :=
  t.txRWSet.elim [] fun txRWSet => txRWSet.nsRwset.flatMap Orderer.writtenKeys

def ReadsKept (codec : Codec) (db db' : VersionDB) (data : List Bytes) : Prop :=
  ∀ b ∈ data, ∀ t, readTxnEnvelope codec b = .ok t →
    ∀ read ∈ t.committedReads, CommittedMatch db read ↔ CommittedMatch db' read

section

variable {codec : Codec} {channelID : Bytes} {mvccApplicable : Bool} {db db' : VersionDB} {fatBlockNum : UInt64}

theorem mvccStep_congr {t : TxnHead}
    (h : ∀ read ∈ t.committedReads, CommittedMatch db read ↔ CommittedMatch db' read) (m : MvccMap) (txnIdx : UInt64) :
    mvccStep mvccApplicable db fatBlockNum m txnIdx t = mvccStep mvccApplicable db' fatBlockNum m txnIdx t := by
  cases ht : t.txRWSet with
  | none => simp only [mvccStep, ht]
  | some txRWSet =>
    rw [TxnHead.committedReads, ht] at h
    simp only [mvccStep, ht, validateEndorserTxn_congr h]

theorem aggregateFrom_congr {data : List Bytes} (h : ReadsKept codec db db' data) (n : Nat) (agg : Aggregate) :
    aggregateFrom codec channelID mvccApplicable db fatBlockNum n agg data =
      aggregateFrom codec channelID mvccApplicable db' fatBlockNum n agg data := by
  induction data generalizing n agg with
  | nil => rfl
  | cons b data ih =>
    have hst : aggregateTxn codec channelID mvccApplicable db fatBlockNum agg n b =
        aggregateTxn codec channelID mvccApplicable db' fatBlockNum agg n b := by
      rw [aggregateTxn, aggregateTxn, bind_eq_bind_iff]
      intro t ht
      dsimp only
      rw [mvccStep_congr (h b List.mem_cons_self t ht)]
    rw [aggregateFrom, aggregateFrom, hst, bind_eq_bind_iff]
    intro agg' _
    exact ih (fun b hb => h b (List.mem_cons_of_mem _ hb)) (n + 1) agg'

theorem lookup_mvccFrom {ts : List TxnHead} {n : Nat} {m m' : MvccMap} {statuses : List TxValidationCode} {k : Bytes}
    (hk : ∀ t ∈ ts, k ∉ t.writtenKeys)
    (h : mvccFrom mvccApplicable db fatBlockNum n m ts = .ok (statuses, m')) : m'.lookup k = m.lookup k := by
  induction ts generalizing n m statuses with
  | nil =>
    cases h
    rfl
  | cons t ts ih =>
    rw [List.forall_mem_cons] at hk
    simp only [mvccFrom, bind_eq_ok, Prod.exists, pure_eq, ok.injEq, Prod.mk.injEq] at h
    obtain ⟨m₁, status, hm, statuses, m₂, hr, -, rfl⟩ := h
    rw [ih hk.2 hr]
    unfold mvccStep at hm
    split at hm
    · cases hm
      rfl
    · rename_i txRWSet ht
      rw [TxnHead.writtenKeys, ht] at hk
      split at hm
      · simp only [validateEndorserTxn, bind_eq_ok] at hm
        obtain ⟨⟨m₂, valid⟩, hm, he⟩ := hm
        cases he
        obtain ⟨a, -, hm⟩ := hm
        split at hm
        · obtain ⟨m₃, hf, he⟩ := bind_eq_ok.mp hm
          cases he
          refine foldlM_invariant (fun m' => m'.lookup k = m.lookup k) ?_ rfl hf
          intro ns hns m₁ m₂ hm₁ hs
          rw [lookup_applyNameSpaceWriteSet (fun hw => hk.1 (List.mem_flatMap.mpr ⟨ns, hns, hw⟩)) hs, hm₁]
        · cases hm
          rfl
      · cases hm
        rfl

end

def ChannelOrgChains.reopened (s : ChannelOrgChains) : ChannelOrgChains :=
  { s with cache := fun _ _ => none }

inductive CrashPoint where
  /-- At most the save point was written. -/
  | beforeBatch
  /-- The MVCC batch was written, and the index entries of these organisations. -/
  | afterBatch (indexed : List Bytes)
  | afterMerkleInfo
  deriving DecidableEq

def ChannelOrgChains.crashed (codec : Codec) (s : ChannelOrgChains) (blk : Block) (out : Created) :
    CrashPoint → ChannelOrgChains
  | .beforeBatch => { s.reopened with savepoint := out.savepoint <|> s.savepoint }
  | .afterBatch indexed =>
    { s.reopened with
      savepoint := out.savepoint <|> s.savepoint
      versionDB := out.versionDB
      orgBlockIndex := fun org =>
        if org ∈ indexed then (storeBlockData codec s blk out).orgBlockIndex org else s.orgBlockIndex org }
  | .afterMerkleInfo => { (storeBlockData codec s blk out).reopened with chHeader := s.chHeader }

structure Attempt where
  lastProcessedBlk : Option Block
  point : CrashPoint

structure Turn where
  blk : Block
  lastProcessedBlk : Option Block
  attempts : List Attempt := []
  crashedAfterHead : Bool := false

def Turn.uninterrupted (turn : Turn) : Turn :=
  { turn with attempts := [], crashedAfterHead := false }

section

variable (codec : Codec) (sha256 : Bytes → Bytes) (chainSupport : ChainSupport) (mvccApplicable : Bool)

def createFrom (s : ChannelOrgChains) (lastProcessedBlk : Option Block) (blk : Block) : Outcome Unit Created :=
  createOrgBlocks codec sha256 { chainSupport with lastProcessedBlk } mvccApplicable s.versionDB s.chHeader blk

/-- After a crash the block is processed again from the stored channel head. -/
def processBlock (blk : Block) (lastProcessedBlk : Option Block) :
    ChannelOrgChains → List Attempt → Outcome Unit (ChannelOrgChains × Created)
  | s, [] => do
      let out ← createFrom codec sha256 chainSupport mvccApplicable s lastProcessedBlk blk
      return (storeBlockData codec s blk out, out)
  | s, attempt :: attempts => do
      let out ← createFrom codec sha256 chainSupport mvccApplicable s attempt.lastProcessedBlk blk
      processBlock blk lastProcessedBlk (s.crashed codec blk out attempt.point) attempts

def Turn.process (turn : Turn) (s : ChannelOrgChains) : Outcome Unit (ChannelOrgChains × Created) := do
  let (s, out) ← processBlock codec sha256 chainSupport mvccApplicable turn.blk turn.lastProcessedBlk s turn.attempts
  return (if turn.crashedAfterHead then s.reopened else s, out)

def processTurns (s : ChannelOrgChains) : List Turn → Outcome Unit (ChannelOrgChains × List Created)
  | [] => .ok (s.reopened, [])
  | turn :: turns => do
      let (s, out) ← turn.process codec sha256 chainSupport mvccApplicable s
      let (s, outs) ← processTurns s turns
      return (s, out :: outs)

/-- A crash that re-processing makes good: there is a channel head to start from, and the block's own
batch, if it was written, decides no read of the block otherwise than the versions before it. -/
def Repeatable (s : ChannelOrgChains) (blk : Block) (point : CrashPoint) : Prop :=
  s.chHeader.orgHeadPostion.entries.length ≠ 0 ∧
    (point ≠ .beforeBatch → mvccApplicable = true → ∀ agg,
      aggregateOrgEnvelope codec chainSupport.channelID mvccApplicable s.versionDB blk = .ok agg →
        ReadsKept codec s.versionDB (applyBatch agg.fatTxnDetailsMVCCMap s.versionDB) blk.data)

/-- So it is if no transaction of the block reads a key that one of them writes. -/
theorem repeatable_of_disjoint {s : ChannelOrgChains} {blk : Block} {heads : List TxnHead}
    (hs : s.chHeader.orgHeadPostion.entries.length ≠ 0) (hh : blk.data.mapM (readTxnEnvelope codec) = .ok heads)
    (h : ∀ t ∈ heads, ∀ t' ∈ heads, ∀ read ∈ t.committedReads, read.1 ∉ t'.writtenKeys) (point : CrashPoint) :
    Repeatable codec chainSupport mvccApplicable s blk point := by
  refine ⟨hs, ?_⟩
  intro _ _ agg ha b hb t ht read hr
  obtain ⟨txns, hrd, -, -, hm⟩ := aggregateFrom_eq_ok ha
  obtain rfl := ok.inj (hh.symm.trans hrd.mapM_eq)
  have htm : t ∈ txns.map Prod.fst := by
    rw [← hrd.bytes] at hb
    obtain ⟨e, he, rfl⟩ := List.mem_map.mp hb
    rw [ok.inj (ht.symm.trans (hrd.heads e he))]
    exact List.mem_map_of_mem he
  have hk := lookup_mvccFrom (fun t' ht' => h t htm t' ht' read hr) hm
  rw [CommittedMatch, CommittedMatch, applyBatch_apply, hk]
  rfl

def RepeatableRun (s : ChannelOrgChains) : List Turn → Prop
  | [] => True
  | turn :: turns =>
    (∀ attempt ∈ turn.attempts, Repeatable codec chainSupport mvccApplicable s turn.blk attempt.point) ∧
      ∀ s' out, turn.process codec sha256 chainSupport mvccApplicable s = .ok (s', out) → RepeatableRun s' turns

structure Resumes (s u : ChannelOrgChains) (blk : Block) : Prop where
  head : u.chHeader = s.chHeader
  create : ∀ l l', createFrom codec sha256 chainSupport mvccApplicable u l blk =
    createFrom codec sha256 chainSupport mvccApplicable s l' blk
  store : ∀ l out, createFrom codec sha256 chainSupport mvccApplicable s l blk = .ok out →
    (storeBlockData codec u blk out).reopened = (storeBlockData codec s blk out).reopened

end

variable {codec : Codec} {sha256 : Bytes → Bytes} {chainSupport : ChainSupport} {mvccApplicable : Bool} {blk : Block}
  {chHeader : ChannelHeadInfo}

theorem startHeads_of_stored (hne : chHeader.orgHeadPostion.entries.length ≠ 0) :
    startHeads codec sha256 chainSupport chHeader blk = .ok (none, chHeader.orgHeadPostion) := by
  rw [startHeads, if_neg hne]

theorem createOrgBlocks_congr {db db' : VersionDB} (hne : chHeader.orgHeadPostion.entries.length ≠ 0)
    (ha : aggregateOrgEnvelope codec chainSupport.channelID mvccApplicable db blk =
      aggregateOrgEnvelope codec chainSupport.channelID mvccApplicable db' blk)
    (hb : ∀ agg, aggregateOrgEnvelope codec chainSupport.channelID mvccApplicable db blk = .ok agg →
      (if mvccApplicable then applyBatch agg.fatTxnDetailsMVCCMap db else db) =
        if mvccApplicable then applyBatch agg.fatTxnDetailsMVCCMap db' else db') (l l' : Option Block) :
    createOrgBlocks codec sha256 { chainSupport with lastProcessedBlk := l } mvccApplicable db chHeader blk =
      createOrgBlocks codec sha256 { chainSupport with lastProcessedBlk := l' } mvccApplicable db' chHeader blk := by
  rw [createOrgBlocks, createOrgBlocks, startHeads_of_stored hne, startHeads_of_stored hne, ok_bind, ok_bind]
  rw [← ha, bind_eq_bind_iff]
  intro agg hok
  rw [← hb agg hok]
  rfl

theorem storePerBlock_idem {α : Type} (orgBlocks : AMap Bytes Block) (value : Block → α)
    (store store' : Bytes → UInt64 → Option α)
    (h : ∀ org, store' org = store org ∨ store' org = storePerBlock orgBlocks value store org) :
    storePerBlock orgBlocks value store' = storePerBlock orgBlocks value store := by
  funext org n
  have hat : store' org n = store org n ∨ store' org n = storePerBlock orgBlocks value store org n := by
    rcases h org with h | h
    · exact Or.inl (congrFun h n)
    · exact Or.inr (congrFun h n)
  cases hb : orgBlocks.lookup org with
  | none =>
    rcases hat with hat | hat
    · simp only [hat, storePerBlock, hb]
    · simpa only [storePerBlock, hb] using hat
  | some block =>
    by_cases hn : block.header.number = n
    · simp only [storePerBlock, hb, if_pos hn]
    · rcases hat with hat | hat
      · simp only [storePerBlock, hb, if_neg hn, hat]
      · simpa only [storePerBlock, hb, if_neg hn] using hat

theorem storeBlockData_crashed (s : ChannelOrgChains) (out : Created) (point : CrashPoint) :
    (storeBlockData codec (s.crashed codec blk out point) blk out).reopened =
      (storeBlockData codec s blk out).reopened := by
  have hsv : (out.savepoint <|> out.savepoint <|> s.savepoint) = (out.savepoint <|> s.savepoint) := by
    cases out.savepoint <;> rfl
  cases point with
  | beforeBatch => simp only [storeBlockData, ChannelOrgChains.reopened, ChannelOrgChains.crashed, hsv]
  | afterBatch indexed =>
    have hi := storePerBlock_idem out.localOrgBlocks (fun _ => blk.header.number) s.orgBlockIndex
      (s.crashed codec blk out (.afterBatch indexed)).orgBlockIndex fun org => by
        by_cases ho : org ∈ indexed
        · exact Or.inr (if_pos ho)
        · exact Or.inl (if_neg ho)
    simp only [storeBlockData, ChannelOrgChains.reopened, ChannelOrgChains.crashed, hsv] at hi ⊢
    rw [hi]
  | afterMerkleInfo =>
    have hi := storePerBlock_idem out.localOrgBlocks (fun _ => blk.header.number) s.orgBlockIndex
      (storePerBlock out.localOrgBlocks (fun _ => blk.header.number) s.orgBlockIndex) fun _ => Or.inr rfl
    simp only [storeBlockData, ChannelOrgChains.reopened, ChannelOrgChains.crashed, hsv, hi, Function.update_idem]

variable {s : ChannelOrgChains}

theorem Resumes.refl (hne : s.chHeader.orgHeadPostion.entries.length ≠ 0) :
    Resumes codec sha256 chainSupport mvccApplicable s s blk where
  head := rfl
  create := createOrgBlocks_congr hne rfl fun _ _ => rfl
  store := fun _ _ _ => rfl

theorem crashed_chHeader (s : ChannelOrgChains) (out : Created) (point : CrashPoint) :
    (s.crashed codec blk out point).chHeader = s.chHeader := by
  cases point <;> rfl

variable {point : CrashPoint} {out : Created} {l₀ : Option Block}

theorem crashed_versionDB (s : ChannelOrgChains) (out : Created) (h : point ≠ .beforeBatch) :
    (s.crashed codec blk out point).versionDB = out.versionDB := by
  cases point with
  | beforeBatch => exact absurd rfl h
  | afterBatch | afterMerkleInfo => rfl

/-- Validation against the versions the block itself has written comes to the same statuses. -/
theorem createOrgBlocks_again (ho : createFrom codec sha256 chainSupport mvccApplicable s l₀ blk = .ok out)
    (hpn : point ≠ .beforeBatch) (hr : Repeatable codec chainSupport mvccApplicable s blk point)
    (l l' : Option Block) :
    createOrgBlocks codec sha256 { chainSupport with lastProcessedBlk := l } mvccApplicable out.versionDB s.chHeader
      blk = createFrom codec sha256 chainSupport mvccApplicable s l' blk := by
  obtain ⟨hne, hrd⟩ := hr
  obtain ⟨heads, agg, hc⟩ := createOrgBlocks_eq_ok ho
  have hvr := hc.versions
  cases mvccApplicable with
  | false =>
    rw [hvr]
    exact createOrgBlocks_congr hne rfl (fun _ _ => rfl) l l'
  | true =>
    rw [if_pos rfl] at hvr
    have hk := hrd hpn rfl agg hc.aggregate
    rw [← hvr] at hk
    refine (createOrgBlocks_congr hne (aggregateFrom_congr hk 0 {}) ?_ l' l).symm
    intro agg' ha'
    obtain rfl := ok.inj (hc.aggregate.symm.trans ha')
    rw [if_pos rfl, if_pos rfl, hvr, applyBatch_applyBatch]

variable {u : ChannelOrgChains}

theorem Resumes.crash (h : Resumes codec sha256 chainSupport mvccApplicable s u blk)
    (ho : createFrom codec sha256 chainSupport mvccApplicable u l₀ blk = .ok out)
    (hr : Repeatable codec chainSupport mvccApplicable s blk point) :
    Resumes codec sha256 chainSupport mvccApplicable s (u.crashed codec blk out point) blk where
  head := by rw [crashed_chHeader, h.head]
  create := by
    intro l l'
    rw [createFrom, crashed_chHeader]
    by_cases hpn : point = .beforeBatch
    · subst hpn
      exact h.create l l'
    · rw [crashed_versionDB u out hpn, h.head]
      exact createOrgBlocks_again ((h.create l₀ l₀).symm.trans ho) hpn hr l l'
  store := by
    intro l out' ho'
    obtain rfl := ok.inj (ho.symm.trans ((h.create l₀ l).trans ho'))
    rw [storeBlockData_crashed, h.store l out ho']

def stored (r : ChannelOrgChains × Created) : ChannelOrgChains × Created :=
  (r.1.reopened, r.2)

theorem processBlock_of_resumes (h : Resumes codec sha256 chainSupport mvccApplicable s u blk) {attempts : List Attempt}
    (hr : ∀ attempt ∈ attempts, Repeatable codec chainSupport mvccApplicable s blk attempt.point) (l : Option Block) :
    stored <$> processBlock codec sha256 chainSupport mvccApplicable blk l u attempts =
      stored <$> processBlock codec sha256 chainSupport mvccApplicable blk l s [] := by
  induction attempts generalizing u with
  | nil =>
    rw [processBlock, processBlock, h.create l l]
    cases ho : createFrom codec sha256 chainSupport mvccApplicable s l blk with
    | ok out => exact congrArg (fun t => ok (t, out)) (h.store l out ho)
    | err e => rfl
    | panic => rfl
  | cons attempt attempts ih =>
    rw [List.forall_mem_cons] at hr
    conv_lhs => rw [processBlock]
    cases ho : createFrom codec sha256 chainSupport mvccApplicable u attempt.lastProcessedBlk blk with
    | ok out => exact ih (h.crash ho hr.1) hr.2
    | err e =>
      rw [processBlock, ← h.create attempt.lastProcessedBlk l, ho]
      rfl
    | panic =>
      rw [processBlock, ← h.create attempt.lastProcessedBlk l, ho]
      rfl

theorem processBlock_congr (h : u.reopened = s.reopened) (l : Option Block) :
    stored <$> processBlock codec sha256 chainSupport mvccApplicable blk l u [] =
      stored <$> processBlock codec sha256 chainSupport mvccApplicable blk l s [] := by
  have hc : createFrom codec sha256 chainSupport mvccApplicable u.reopened l blk =
      createFrom codec sha256 chainSupport mvccApplicable s.reopened l blk := by rw [h]
  change createFrom codec sha256 chainSupport mvccApplicable u l blk =
      createFrom codec sha256 chainSupport mvccApplicable s l blk at hc
  rw [processBlock, processBlock, hc]
  cases createFrom codec sha256 chainSupport mvccApplicable s l blk with
  | ok out =>
    have hst : (storeBlockData codec u.reopened blk out).reopened =
        (storeBlockData codec s.reopened blk out).reopened := by rw [h]
    exact congrArg (fun t => ok (t, out)) hst
  | err e => rfl
  | panic => rfl

theorem Turn.process_stored (turn : Turn) (s : ChannelOrgChains) :
    stored <$> turn.process codec sha256 chainSupport mvccApplicable s =
      stored <$> processBlock codec sha256 chainSupport mvccApplicable turn.blk turn.lastProcessedBlk s
        turn.attempts := by
  rw [Turn.process]
  cases processBlock codec sha256 chainSupport mvccApplicable turn.blk turn.lastProcessedBlk s turn.attempts with
  | ok r => cases turn.crashedAfterHead <;> rfl
  | err e => rfl
  | panic => rfl

theorem Turn.process_uninterrupted {turn : Turn} (h : u.reopened = s.reopened)
    (hr : ∀ attempt ∈ turn.attempts, Repeatable codec chainSupport mvccApplicable u turn.blk attempt.point) :
    stored <$> turn.process codec sha256 chainSupport mvccApplicable u =
      stored <$> turn.uninterrupted.process codec sha256 chainSupport mvccApplicable s := by
  rw [Turn.process_stored, Turn.process_stored]
  refine Eq.trans ?_ (processBlock_congr h turn.lastProcessedBlk)
  cases ha : turn.attempts with
  | nil => rfl
  | cons attempt attempts =>
    rw [ha] at hr
    exact processBlock_of_resumes (.refl (hr attempt List.mem_cons_self).1) hr _

/-- In every run whose crashes are all repeatable, re-processing produces the same org blocks and leaves
the same stored state, the version database among it, as the run without crashes. -/
theorem processTurns_uninterrupted {s : ChannelOrgChains} {turns : List Turn}
    (h : RepeatableRun codec sha256 chainSupport mvccApplicable s turns) :
    processTurns codec sha256 chainSupport mvccApplicable s turns =
      processTurns codec sha256 chainSupport mvccApplicable s (turns.map Turn.uninterrupted) := by
  suffices hg : ∀ u, s.reopened = u.reopened → processTurns codec sha256 chainSupport mvccApplicable s turns =
      processTurns codec sha256 chainSupport mvccApplicable u (turns.map Turn.uninterrupted) from hg s rfl
  induction turns generalizing s with
  | nil =>
    intro u hu
    exact congrArg (fun t => ok (t, [])) hu
  | cons turn turns ih =>
    intro u hu
    obtain ⟨hrp, hr⟩ := h
    refine bind_eq_of_map_eq (turn.process_uninterrupted hu hrp) ?_
    rintro ⟨t, out⟩ ⟨t', out'⟩ hpr hst
    obtain ⟨ht, rfl⟩ := Prod.mk.inj hst
    dsimp only
    rw [ih (hr t out hpr) t' ht]

def writeEnvelope (key : Bytes) : Envelope where
  type := .endorserTransaction
  leanEnv := some {
    channelId := ascii "ch"
    results := some ⟨[{
      nameSpace := ascii "cc"
      rwset := some { reads := [⟨ascii "k", none⟩], writes := [⟨key, false, ascii "v"⟩] } }]⟩ }

def writeCodec (key : Bytes) : Codec :=
  { Codec.none with
    envelope := .ofTable [] [(writeEnvelope key, [0x01])]
    metadata := .ofTable [0x02] [({}, [])]
    sparseTxnFilter := .ofTable [] [(⟨5, [⟨0, .valid⟩]⟩, [0x0a]), (⟨5, [⟨0, .mvccReadConflict⟩]⟩, [0x0b])] }

def fourProcessed : ChannelOrgChains where
  chHeader := { lastFatBlockNumberProcessed := 4, orgHeadPostion := AList.insert (ascii "ch") ⟨4, [], 4, 0⟩ ∅ }

def crashedTurn : Turn where
  blk := payBlock 5
  lastProcessedBlk := none
  attempts := [⟨none, .afterBatch []⟩]

def filtersOf (r : ChannelOrgChains × List Created) : List (Option Bytes) :=
  r.2.map fun out => (out.orgHashMap.lookup (ascii "ch")).map OrgBlockDetails.sparseBlockFilter

theorem crashedTurn_repeatable :
    RepeatableRun (writeCodec (ascii "j")) id payChain true fourProcessed [crashedTurn] := by
  refine ⟨?_, fun _ _ _ => trivial⟩
  intro attempt _
  exact repeatable_of_disjoint _ _ _ (by decide) rfl (by decide) _

theorem processTurns_uninterrupted_crashedTurn :
    filtersOf <$> processTurns (writeCodec (ascii "j")) id payChain true fourProcessed [crashedTurn] =
      .ok [some [0x0a]] := by
  rw [processTurns_uninterrupted crashedTurn_repeatable]
  rfl

/-- A transaction that reads a key and writes it is refused when its block is processed again. -/
theorem crashedTurn_status_lost :
    filtersOf <$> processTurns (writeCodec (ascii "k")) id payChain true fourProcessed [crashedTurn] =
        .ok [some [0x0b]] ∧
      filtersOf <$> processTurns (writeCodec (ascii "k")) id payChain true fourProcessed
        ([crashedTurn].map Turn.uninterrupted) = .ok [some [0x0a]] :=
  ⟨rfl, rfl⟩

end Sparse

end Drunix.Orderer
