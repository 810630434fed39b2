import Drunix.Lib.Transition
import Drunix.Lib.Varint
import Drunix.Orderer.Sparse.Retrieval

namespace Drunix.Orderer.Sparse

open Lib Proto Outcome Option

inductive SeekPosition
  | oldest
  | newest
  | specified (number : UInt64)
  | nextCommit
  | unset

inductive Status
  | serviceUnavailable
  deriving DecidableEq

structure OrgCacheIterator where
  blockNumber : UInt64
  maxAvailableBlockNum : UInt64

/-- `Height`: a chain whose org has no entry in the channel's heads has height zero. -/
def ChannelOrgChains.height (s : ChannelOrgChains) (mspId : Bytes) : UInt64 :=
  (s.chHeader.orgHeadPostion.lookup mspId).elim 0 fun headPosition => headPosition.lastOrgBlockNum + 1

/-- Where `Iterator` starts, for the height it reads; no block is found for the other positions. -/
def startingBlockNumber (height : UInt64) : SeekPosition → Option UInt64
  | .oldest => some 0
  | .newest => some (height - 1)
  | .specified number => if height < number then none else some number
  | .nextCommit => some height
  | .unset => none

def blockBytes (s : ChannelOrgChains) (mspId : Bytes) (blockNum : UInt64) : Bytes :=
  (s.cache mspId blockNum).getD []

/-- The second half of `Get`: the block is marshalled before the error is looked at, and a nil block panics. -/
def retrieveBytes (codec : Codec) (s : ChannelOrgChains) (fatBlockReader : UInt64 → Option Block) (mspId : Bytes)
    (blockNum : UInt64) : Outcome Status Bytes :=
  match retriveOrgBlockByNum codec s fatBlockReader mspId blockNum with
  | .ok block => .ok (codec.block.marshal block)
  | .err _ => .panic
  | .panic => .panic

def unmarshalResult (codec : Codec) (result : Bytes) : Outcome Status Block :=
  if result = [] then .err .serviceUnavailable else .deref (codec.block.unmarshal result)

/-- Where a caller of the iterator is: between the two reads of the height in `Iterator`, between calls of `Next`, in
the loop of `waitForBlock` or just out of it, before the read of the cache, or after a miss. -/
inductive Reader
  | closed
  | opening (start : Option UInt64)
  | notFound
  | idle (it : OrgCacheIterator)
  | waiting (it : OrgCacheIterator)
  | woken (it : OrgCacheIterator)
  | reading (it : OrgCacheIterator)
  | missed (it : OrgCacheIterator)
  | crashed

/-- The chains of a channel with one iterator over the chain of an org: its start position and the number of blocks it
has returned. -/
structure Delivering where
  outs : List Created := []
  base : Option BlockHeader := none
  chains : ChannelOrgChains := {}
  reader : Reader := .closed
  start : UInt64 := 0
  delivered : Nat := 0

/-- What a step shows: a result of `Next` comes with the number it was called for and, after a miss, the ledger of fat
blocks that was read. -/
inductive DeliveryEvent
  | silent
  | process
  | opened
  | next (number : UInt64) (fatBlockReader : Option (UInt64 → Option Block)) (out : Outcome Status Block)

namespace Delivering

variable (s : Delivering)

def returned (it : OrgCacheIterator) : Outcome Status Block → Delivering
  | .ok _ =>
    { s with reader := .idle { it with blockNumber := it.blockNumber + 1 }, delivered := s.delivered + 1 }
  | .err _ => { s with reader := .idle it }
  | .panic => { s with reader := .crashed }

end Delivering

section

variable (codec : Codec) (sha256 : Bytes → Bytes) (channelID mspId : Bytes) (fatLedger : UInt64 → Option Block)

inductive DeliveryStep (s : Delivering) : DeliveryEvent → Delivering → Prop
  | process (chainSupport : ChainSupport) (mvccApplicable : Bool) (blk : Block) (out : Created)
      (hchannel : chainSupport.channelID = channelID)
      (hout : createOrgBlocks codec sha256 chainSupport mvccApplicable s.chains.versionDB s.chains.chHeader blk =
        .ok out) :
      DeliveryStep s .process
        { s with
          outs := s.outs ++ [out]
          base := (switchBlock chainSupport s.chains.chHeader blk).map Block.header <|> s.base
          chains := storeBlockData codec s.chains blk out }
  | evict (cache : Bytes → UInt64 → Option Bytes)
      (hcache : ∀ org n, cache org n = none ∨ cache org n = s.chains.cache org n) :
      DeliveryStep s .silent { s with chains := { s.chains with cache } }
  | seek (position : SeekPosition) (hclosed : s.reader = .closed) :
      DeliveryStep s .silent
        { s with reader := .opening (startingBlockNumber (s.chains.height mspId) position) }
  | rejected (hopening : s.reader = .opening none) : DeliveryStep s .silent { s with reader := .notFound }
  | opened {start : UInt64} (hopening : s.reader = .opening (some start)) :
      DeliveryStep s .opened { s with reader := .idle ⟨start, s.chains.height mspId - 1⟩, start, delivered := 0 }
  | available {it : OrgCacheIterator} (hidle : s.reader = .idle it)
      (havailable : ¬ it.maxAvailableBlockNum < it.blockNumber) :
      DeliveryStep s .silent { s with reader := .reading it }
  | wait {it : OrgCacheIterator} (hidle : s.reader = .idle it) (hwait : it.maxAvailableBlockNum < it.blockNumber) :
      DeliveryStep s .silent { s with reader := .waiting it }
  | wake {it : OrgCacheIterator} (hwaiting : s.reader = .waiting it)
      (hheight : ¬ s.chains.height mspId ≤ it.blockNumber) : DeliveryStep s .silent { s with reader := .woken it }
  | resume {it : OrgCacheIterator} (hwoken : s.reader = .woken it) :
      DeliveryStep s .silent
        { s with reader := .reading { it with maxAvailableBlockNum := s.chains.height mspId - 1 } }
  | hit (it : OrgCacheIterator) {out : Outcome Status Block} (hreading : s.reader = .reading it)
      (hbytes : blockBytes s.chains mspId it.blockNumber ≠ [])
      (hout : unmarshalResult codec (blockBytes s.chains mspId it.blockNumber) = out) :
      DeliveryStep s (.next it.blockNumber none out) (s.returned it out)
  | miss {it : OrgCacheIterator} (hreading : s.reader = .reading it)
      (hbytes : blockBytes s.chains mspId it.blockNumber = []) :
      DeliveryStep s .silent { s with reader := .missed it }
  -- The ledger of fat blocks grows: what it holds now is part of what it holds in the end.
  | retrieve (it : OrgCacheIterator) {out : Outcome Status Block} (fatBlockReader : UInt64 → Option Block)
      (hmissed : s.reader = .missed it)
      (hledger : ∀ n block, fatBlockReader n = some block → fatLedger n = some block)
      (hout : (retrieveBytes codec s.chains fatBlockReader mspId it.blockNumber >>= unmarshalResult codec) = out) :
      DeliveryStep s (.next it.blockNumber (some fatBlockReader) out) (s.returned it out)

def DeliveryRun : Delivering → Prop :=
  Reachable (fun s => ∃ versionDB, s = { chains := { versionDB } }) fun s t =>
    ∃ event, DeliveryStep codec sha256 channelID mspId fatLedger s event t

/-- Block `n` of the org's own chain: one that was produced for it, or a fat block up to the one its chain starts
from. -/
def Delivering.OwnBlock (s : Delivering) (n : UInt64) (block : Block) : Prop :=
  (∃ b ∈ orgChain s.outs mspId, b.2.header.number = n ∧ b.2 = block) ∨
    ∃ b, orgBase channelID s.base mspId = some b ∧ n ≤ b.number ∧ fatLedger n = some block

/-- `Next` does not panic, and a block it returns is below the height, is the org's own, and has the next number. -/
def Delivering.Conforms (s : Delivering) : DeliveryEvent → Prop
  | .next number _ out => out ≠ .panic ∧ ∀ block, out = .ok block →
      number < s.chains.height mspId ∧ s.OwnBlock channelID mspId fatLedger number block ∧
        number.toNat = s.start.toNat + s.delivered
  | _ => True

/-- The org is in the heads when the iterator is opened. A block that is retrieved is in the cache, or is one of the
fat blocks the org's chain starts from. The height of the chain does not overflow. -/
def Delivering.Sound (s : Delivering) : DeliveryEvent → Prop
  | .silent => True
  | .process => s.chains.height mspId ≠ 0xffffffffffffffff
  | .opened => s.chains.height mspId ≠ 0
  | .next number fatBlockReader _ => ∀ reader, fatBlockReader = some reader →
      blockBytes s.chains mspId number ≠ [] ∨
        ∃ b, orgBase channelID s.base mspId = some b ∧ number ≤ b.number ∧ reader number ≠ none

def SoundDelivery : Delivering → Prop :=
  Reachable (fun s => ∃ versionDB, s = { chains := { versionDB } }) fun s t =>
    ∃ event, DeliveryStep codec sha256 channelID mspId fatLedger s event t ∧ s.Sound channelID mspId event

end

section

variable {codec : Codec} {sha256 : Bytes → Bytes} {channelID mspId : Bytes} {fatLedger : UInt64 → Option Block}
  {chainSupport : ChainSupport} {blk : Block}

theorem startHeads_savepoint {chHeader : ChannelHeadInfo} {savepoint : Option UInt64}
    {heads : AMap Bytes LastBlockMapping}
    (h : startHeads codec sha256 chainSupport chHeader blk = .ok (savepoint, heads)) :
    savepoint = (switchBlock chainSupport chHeader blk).map fun b => b.header.number := by
  rcases startHeads_eq_ok h with ⟨rfl, hsw, -⟩ | ⟨hsw, _, _, hf, -, rfl, -⟩
  · rw [switchBlock, if_neg hsw, map_none]
  · rw [switchBlock, if_pos hsw, hf, map_some]

variable {s : ChannelOrgChains} {outs : List Created}

theorem Run.savepoint_eq {base : Option BlockHeader} (h : Run codec sha256 channelID outs base s) :
    s.savepoint = base.map BlockHeader.number := by
  induction h with
  | init versionDB => rfl
  | @process outs base s chainSupport mvccApplicable blk out _ _ ho ih =>
    obtain ⟨heads, agg, hc⟩ := createOrgBlocks_eq_ok ho
    change (out.savepoint <|> s.savepoint) = _
    rw [startHeads_savepoint hc.start, ih]
    cases switchBlock chainSupport s.chHeader blk <;> rfl
  | evict cache _ _ ih => exact ih

theorem height_le_storeBlockData {mvccApplicable : Bool} {out : Created}
    (ho : createOrgBlocks codec sha256 chainSupport mvccApplicable s.versionDB s.chHeader blk = .ok out)
    (hmax : s.height mspId ≠ 0xffffffffffffffff) : s.height mspId ≤ (storeBlockData codec s blk out).height mspId := by
  obtain ⟨heads, agg, hc⟩ := createOrgBlocks_eq_ok ho
  rcases startHeads_eq_ok hc.start with ⟨-, -, hlk⟩ | ⟨⟨he, -⟩, -⟩
  · change _ ≤ (out.chHeader.orgHeadPostion.lookup mspId).elim 0 _
    cases hd : agg.orgTxnEnvelopeMap.lookup mspId with
    | none =>
      rw [(hc.skipped mspId hd).2.2, hlk]
      exact UInt64.le_refl _
    | some details =>
      obtain ⟨r, hr, -, -, hhd⟩ := hc.produced mspId details hd
      have hnm := (nextRecord_extends hr).1
      have hh : r.head.lastOrgBlockNum = s.height mspId := by
        rw [hnm.headNum, hnm.number, hlk]
        rfl
      rw [hhd, elim_some, hh]
      generalize s.height mspId = n at hmax
      rw [Ne, ← UInt64.toNat_inj] at hmax
      rw [UInt64.le_iff_toNat_le, UInt64.toNat_add]
      have := n.toNat_lt
      simp only [UInt64.reduceToNat] at hmax ⊢
      omega
  · rw [ChannelOrgChains.height, (AMap.length_eq_zero_iff _).mp he mspId]
    exact UInt64.zero_le

/-- The iterator's last available block is below the height, and its number is the next after those returned. -/
def OrgCacheIterator.Counts (it : OrgCacheIterator) (height start : UInt64) (delivered : Nat) : Prop :=
  it.maxAvailableBlockNum < height ∧ it.blockNumber.toNat = start.toNat + delivered

def Reader.Within (height start : UInt64) (delivered : Nat) : Reader → Prop
  | .idle it | .waiting it => it.Counts height start delivered
  | .woken it | .reading it | .missed it => it.Counts height start delivered ∧ it.blockNumber < height
  | _ => True

theorem Reader.Within.mono {height height' start : UInt64} {delivered : Nat} {reader : Reader}
    (h : reader.Within height start delivered) (hle : height ≤ height') : reader.Within height' start delivered := by
  cases reader with
  | idle it | waiting it => exact ⟨UInt64.lt_of_lt_of_le h.1 hle, h.2⟩
  | woken it | reading it | missed it =>
    exact ⟨⟨UInt64.lt_of_lt_of_le h.1.1 hle, h.1.2⟩, UInt64.lt_of_lt_of_le h.2 hle⟩
  | closed | opening start | notFound | crashed => trivial

structure Delivering.Inv (codec : Codec) (sha256 : Bytes → Bytes) (channelID mspId : Bytes) (s : Delivering) : Prop where
  run : Run codec sha256 channelID s.outs s.base s.chains
  within : s.reader.Within (s.chains.height mspId) s.start s.delivered

variable {n : UInt64} {it : OrgCacheIterator} {block : Block} {fatBlockReader : UInt64 → Option Block}

theorem pred_lt (h : n ≠ 0) : n - 1 < n := by
  rw [Ne, ← UInt64.toNat_inj, UInt64.toNat_zero] at h
  have hle : (1 : UInt64) ≤ n := by
    rw [UInt64.le_iff_toNat_le, UInt64.toNat_one]
    omega
  rw [UInt64.lt_iff_toNat_lt, UInt64.toNat_sub_of_le _ _ hle, UInt64.toNat_one]
  omega

theorem Delivering.Inv.returned {s : Delivering} (hs : s.Inv codec sha256 channelID mspId)
    (hc : it.Counts (s.chains.height mspId) s.start s.delivered) (hlt : it.blockNumber < s.chains.height mspId)
    (out : Outcome Status Block) : (s.returned it out).Inv codec sha256 channelID mspId := by
  cases out with
  | ok block =>
    refine ⟨hs.run, hc.1, ?_⟩
    change (it.blockNumber + 1).toNat = s.start.toNat + (s.delivered + 1)
    rw [toNat_add_one (by grind), hc.2, Nat.add_assoc]
  | err status => exact ⟨hs.run, hc⟩
  | panic => exact ⟨hs.run, trivial⟩

theorem DeliveryStep.inv {s t : Delivering} {event : DeliveryEvent}
    (h : DeliveryStep codec sha256 channelID mspId fatLedger s event t) (hsn : s.Sound channelID mspId event)
    (hs : s.Inv codec sha256 channelID mspId) : t.Inv codec sha256 channelID mspId := by
  have hw := hs.within
  cases h with
  | process chainSupport mvccApplicable blk out hc hot =>
    exact ⟨hs.run.process chainSupport mvccApplicable blk out hc hot,
      hw.mono (height_le_storeBlockData hot hsn)⟩
  | evict cache hcc => exact ⟨hs.run.evict cache hcc, hw⟩
  | seek | rejected => exact ⟨hs.run, trivial⟩
  | opened ho => exact ⟨hs.run, pred_lt hsn, rfl⟩
  | available hi ha =>
    rw [hi] at hw
    exact ⟨hs.run, hw, UInt64.lt_of_le_of_lt (UInt64.not_lt.mp ha) hw.1⟩
  | wait hi hwa =>
    rw [hi] at hw
    exact ⟨hs.run, hw⟩
  | wake hwt hh =>
    rw [hwt] at hw
    exact ⟨hs.run, hw, UInt64.not_le.mp hh⟩
  | resume hwk =>
    rw [hwk] at hw
    have hne : s.chains.height mspId ≠ 0 := by
      intro hz
      rw [hz] at hw
      exact UInt64.not_lt_zero hw.2
    exact ⟨hs.run, ⟨pred_lt hne, hw.1.2⟩, hw.2⟩
  | hit it hr hb hot =>
    rw [hr] at hw
    exact hs.returned hw.1 hw.2 _
  | miss hr hb =>
    rw [hr] at hw
    exact ⟨hs.run, hw⟩
  | retrieve it fatBlockReader hm hl hot =>
    rw [hm] at hw
    exact hs.returned hw.1 hw.2 _

theorem SoundDelivery.inv {s : Delivering} (h : SoundDelivery codec sha256 channelID mspId fatLedger s) :
    s.Inv codec sha256 channelID mspId := by
  refine h.invariant (Delivering.Inv codec sha256 channelID mspId) ?_ fun s t hs ⟨_, hst, hsn⟩ =>
    hst.inv hsn hs
  rintro _ ⟨versionDB, rfl⟩
  exact ⟨.init versionDB, trivial⟩

theorem StoreInv.unmarshal_cached (hi : StoreInv codec outs s)
    (hw : ∀ b ∈ orgChain outs mspId, codec.block.RoundTrips b.2 ∧ codec.block.marshal b.2 ≠ [])
    (hby : blockBytes s mspId n ≠ []) :
    ∃ b ∈ orgChain outs mspId, b.2.header.number = n ∧ blockBytes s mspId n = codec.block.marshal b.2 ∧
      codec.block.unmarshal (blockBytes s mspId n) = some b.2 := by
  cases hc : s.cache mspId n with
  | none =>
    rw [blockBytes, hc] at hby
    exact absurd rfl hby
  | some bytes =>
    obtain ⟨b, hb, hn, rfl⟩ := hi.cached mspId n bytes hc
    rw [blockBytes, hc]
    exact ⟨b, hb, hn, rfl, (hw b hb).1⟩

theorem unmarshalResult_marshal (hrt : codec.block.RoundTrips block) (hne : codec.block.marshal block ≠ []) :
    unmarshalResult codec (codec.block.marshal block) = .ok block := by
  rw [unmarshalResult, if_neg hne, deref_eq_ok]
  exact hrt

theorem retrieveBytes_of_ok (h : retriveOrgBlockByNum codec s fatBlockReader mspId n = .ok block) :
    retrieveBytes codec s fatBlockReader mspId n = .ok (codec.block.marshal block) := by
  rw [retrieveBytes, h]

/-- What is retrieved for a number that is cached, or within the fat blocks the chain starts from, is the org's own. -/
theorem Delivering.Inv.retrieved {s : Delivering} (hs : s.Inv codec sha256 channelID mspId)
    (hw : ∀ b ∈ orgChain s.outs mspId, codec.block.RoundTrips b.2 ∧ codec.block.marshal b.2 ≠ [])
    (hf : ∀ n block, fatLedger n = some block → codec.block.RoundTrips block ∧ codec.block.marshal block ≠ [])
    (hl : ∀ n block, fatBlockReader n = some block → fatLedger n = some block)
    (hst : blockBytes s.chains mspId n ≠ [] ∨
      ∃ b, orgBase channelID s.base mspId = some b ∧ n ≤ b.number ∧ fatBlockReader n ≠ none) :
    ∃ block, s.OwnBlock channelID mspId fatLedger n block ∧
      (retrieveBytes codec s.chains fatBlockReader mspId n >>= unmarshalResult codec) = .ok block := by
  by_cases hby : blockBytes s.chains mspId n = []
  · obtain ⟨b, hbs, hle, hr⟩ := hst.resolve_left (not_not.mpr hby)
    obtain ⟨block, hbl⟩ := ne_none_iff_exists'.mp hr
    obtain ⟨hrt, hne⟩ := hf n block (hl n block hbl)
    have hsv : s.chains.savepoint = some b.number := by
      have hb : s.base = some b := by
        unfold orgBase at hbs
        split_ifs at hbs
        exact hbs
      rw [hs.run.savepoint_eq, hb, map_some]
    have hok : retriveOrgBlockByNum codec s.chains fatBlockReader mspId n = .ok block := by
      have hsm : n ≤ s.chains.savepoint.getD 0 := by rwa [hsv]
      change (if blockBytes s.chains mspId n ≠ [] then _ else _) = _
      rw [if_neg (not_not.mpr hby), if_pos hsm, hbl]
      rfl
    refine ⟨block, Or.inr ⟨b, hbs, hle, hl n block hbl⟩, ?_⟩
    rw [retrieveBytes_of_ok hok, ok_bind, unmarshalResult_marshal hrt hne]
  · obtain ⟨b, hb, hn, -, hun⟩ := hs.run.storeInv.unmarshal_cached hw hby
    have hok : retriveOrgBlockByNum codec s.chains fatBlockReader mspId n = .ok b.2 := by
      change (if blockBytes s.chains mspId n ≠ [] then deref (codec.block.unmarshal _) else _) = _
      rw [if_pos hby, deref_eq_ok]
      exact hun
    refine ⟨b.2, Or.inl ⟨b, hb, hn, rfl⟩, ?_⟩
    rw [retrieveBytes_of_ok hok, ok_bind, unmarshalResult_marshal (hw b hb).1 (hw b hb).2]

theorem OrgCacheIterator.Counts.conforms {s : Delivering}
    (hc : it.Counts (s.chains.height mspId) s.start s.delivered) (hlt : it.blockNumber < s.chains.height mspId)
    {fatBlockReader : Option (UInt64 → Option Block)} {out : Outcome Status Block}
    (ho : ∃ block, s.OwnBlock channelID mspId fatLedger it.blockNumber block ∧ out = .ok block) :
    s.Conforms channelID mspId fatLedger (.next it.blockNumber fatBlockReader out) := by
  obtain ⟨block, hb, rfl⟩ := ho
  refine ⟨by simp, ?_⟩
  rintro _ ⟨⟩
  exact ⟨hlt, hb, hc.2⟩

end

/-- Where the iterator is opened on a chain that has a head and finds the blocks it retrieves in the cache or among the
fat blocks the chain starts from, every call of `Next` conforms, in every interleaving with the producer. -/
theorem org_iterator_conforms (codec : Codec) (sha256 : Bytes → Bytes) (channelID mspId : Bytes)
    (fatLedger : UInt64 → Option Block)
    (hfat : ∀ n block, fatLedger n = some block → codec.block.RoundTrips block ∧ codec.block.marshal block ≠ [])
    (s : Delivering) (hrun : SoundDelivery codec sha256 channelID mspId fatLedger s)
    (hwire : ∀ b ∈ orgChain s.outs mspId, codec.block.RoundTrips b.2 ∧ codec.block.marshal b.2 ≠ [])
    (event : DeliveryEvent) (t : Delivering) (hstep : DeliveryStep codec sha256 channelID mspId fatLedger s event t)
    (hsound : s.Sound channelID mspId event) : s.Conforms channelID mspId fatLedger event := by
  have hs := hrun.inv
  have hw := hs.within
  cases hstep with
  | hit it hr hby ho =>
    rw [hr] at hw
    obtain ⟨b, hb, hn, hmr, hun⟩ := hs.run.storeInv.unmarshal_cached hwire hby
    refine hw.1.conforms hw.2 ⟨b.2, Or.inl ⟨b, hb, hn, rfl⟩, ?_⟩
    rw [← ho, hmr, unmarshalResult_marshal (hwire b hb).1 (hwire b hb).2]
  | retrieve it fatBlockReader hm hl ho =>
    rw [hm] at hw
    subst ho
    exact hw.1.conforms hw.2 (hs.retrieved hwire hfat hl (hsound fatBlockReader rfl))
  | process | evict | seek | rejected | opened | available | wait | wake | resume | miss => trivial

theorem org_iterator_conforms_newest :
    ∃ s t, SoundDelivery approveCodec id (ascii "ch") (ascii "ch") (fun _ => none) s ∧
      DeliveryStep approveCodec id (ascii "ch") (ascii "ch") (fun _ => none) s (.next 5 none (.ok approveBlock)) t ∧
      s.Conforms (ascii "ch") (ascii "ch") (fun _ => none) (.next 5 none (.ok approveBlock)) := by
  have h₀ : SoundDelivery approveCodec id (ascii "ch") (ascii "ch") (fun _ => none) {} := .init ⟨_, rfl⟩
  have h₁ := h₀.step ⟨.process, .process payChain true approveFat _ rfl rfl, (by decide : (0 : UInt64) ≠ _)⟩
  have h₂ := h₁.step ⟨.silent, .seek .newest rfl, trivial⟩
  have h₃ := h₂.step ⟨.opened, .opened rfl, (by decide : (6 : UInt64) ≠ 0)⟩
  have h₄ := h₃.step ⟨.silent, .available rfl (by decide), trivial⟩
  refine ⟨_, _, h₄, .hit ⟨5, 5⟩ rfl (by decide) rfl, ?_⟩
  exact org_iterator_conforms approveCodec id (ascii "ch") (ascii "ch") _ (by simp) _ h₄ (by decide) _ _
    (.hit ⟨5, 5⟩ rfl (by decide) rfl) (by rintro _ ⟨⟩)

def genesis : Block where
  header := { number := 0 }
  data := [[0x01]]

def genesisCodec : Codec :=
  { Codec.none with block := .ofTable [] [(genesis, [0x2a])] }

def genesisLedger (n : UInt64) : Option Block :=
  if n = 0 then some genesis else none

/-- An org without a block: the height is zero, so nothing is waited for. The first call returns the fat block zero and
the second panics. -/
theorem unknown_org_not_awaited :
    ∃ s t u v,
      DeliveryRun genesisCodec id (ascii "ch") (ascii "Org1MSP") genesisLedger s ∧
      s.chains.height (ascii "Org1MSP") = 0 ∧ orgChain s.outs (ascii "Org1MSP") = [] ∧
      DeliveryStep genesisCodec id (ascii "ch") (ascii "Org1MSP") genesisLedger s
        (.next 0 (some genesisLedger) (.ok genesis)) t ∧
      DeliveryRun genesisCodec id (ascii "ch") (ascii "Org1MSP") genesisLedger u ∧
      DeliveryStep genesisCodec id (ascii "ch") (ascii "Org1MSP") genesisLedger u
        (.next 1 (some genesisLedger) .panic) v := by
  have h₀ : DeliveryRun genesisCodec id (ascii "ch") (ascii "Org1MSP") genesisLedger {} := .init ⟨_, rfl⟩
  have h₁ := h₀.step ⟨.silent, .seek .oldest rfl⟩
  have h₂ := h₁.step ⟨.opened, .opened rfl⟩
  have h₃ := h₂.step ⟨.silent, .available rfl (by decide)⟩
  have h₄ := h₃.step ⟨.silent, .miss rfl (by decide)⟩
  have h₅ := h₄.step ⟨.next 0 (some genesisLedger) (.ok genesis),
    .retrieve ⟨0, -1⟩ genesisLedger rfl (fun _ _ h => h) rfl⟩
  have h₆ := h₅.step ⟨.silent, .available rfl (by decide)⟩
  have h₇ := h₆.step ⟨.silent, .miss rfl (by decide)⟩
  exact ⟨_, _, _, _, h₄, by decide, rfl, .retrieve ⟨0, -1⟩ genesisLedger rfl (fun _ _ h => h) rfl, h₇,
    .retrieve ⟨1, -1⟩ genesisLedger rfl (fun _ _ h => h) rfl⟩

end Drunix.Orderer.Sparse
