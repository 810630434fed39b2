import Drunix.Ledger.StateSql.SqlClient

namespace Drunix.Ledger.StateSql

open Proto List

variable {name ns rest : Bytes}

theorem isPrefixOf_append_sep (hn : 0x00 ∉ name) : name.isPrefixOf (ns ++ 0x00 :: rest) = name.isPrefixOf ns := by
  induction name generalizing ns with
  | nil => rfl
  | cons c name ih =>
    rw [mem_cons, not_or] at hn
    cases ns with
    | nil =>
      have hc : (c == 0x00) = false := by simpa using Ne.symm hn.1
      rw [nil_append, isPrefixOf_cons_cons, hc]
      rfl
    | cons c' ns => rw [cons_append, isPrefixOf_cons_cons, isPrefixOf_cons_cons, ih hn.2]

theorem beforeSep_append_sep (hns : 0x00 ∉ ns) : SqlSchema.beforeSep (ns ++ 0x00 :: rest) = ns := by
  rw [SqlSchema.beforeSep, takeWhile_append_of_pos]
  · simp
  · intro c hc
    rw [decide_eq_true_iff]
    rintro rfl
    exact hns hc

namespace SqlSchema

variable {s : SqlSchema} {ns key : Bytes}

theorem encodeDataKey_eq_configEnvBytes (hns : 0x00 ∉ ns) :
    encodeDataKey ns key = configEnvBytes ↔ ns = [] ∧ key = ascii "CHANNEL_CONFIG_ENV_BYTES" := by
  constructor
  · exact fun h => encodeDataKey_inj hns not_mem_nil h
  · rintro ⟨rfl, rfl⟩
    rfl

theorem encodeDataKey_eq_lastLifecycle (hns : 0x00 ∉ ns) :
    encodeDataKey ns key = lastLifecycleBlockNumberKey ↔ ns = [] ∧ key = ascii "LAST_LIFECYCLE_BLOCK_NUMBER" := by
  constructor
  · exact fun h => encodeDataKey_inj hns not_mem_nil h
  · rintro ⟨rfl, rfl⟩
    rfl

def isPeerKey (ns key : Bytes) : Bool :=
  ns = [] && (key = ascii "CHANNEL_CONFIG_ENV_BYTES" || key = ascii "LAST_LIFECYCLE_BLOCK_NUMBER")

def isLifecycleName (ns : Bytes) : Bool :=
  (ascii "_lifecycle").isPrefixOf ns || (ascii "lscc").isPrefixOf ns

theorem isLifecycleKey_encodeDataKey (hns : 0x00 ∉ ns) :
    isLifecycleKey (encodeDataKey ns key) = (isLifecycleName ns || isPeerKey ns key) := by
  have hlf : (ascii "d_lifecycle").isPrefixOf (encodeDataKey ns key) = (ascii "_lifecycle").isPrefixOf ns :=
    isPrefixOf_append_sep (by decide)
  have hl : (ascii "dlscc").isPrefixOf (encodeDataKey ns key) = (ascii "lscc").isPrefixOf ns :=
    isPrefixOf_append_sep (by decide)
  have hp : decide (encodeDataKey ns key ∈ [configEnvBytes, savePointKey, lastLifecycleBlockNumberKey]) = isPeerKey ns key := by
    rw [Bool.eq_iff_iff, decide_eq_true_iff, mem_cons, mem_cons, mem_singleton,
      encodeDataKey_eq_configEnvBytes hns, encodeDataKey_eq_lastLifecycle hns]
    have hsv : encodeDataKey ns key ≠ savePointKey := fun h => absurd (List.cons.inj h).1 (by decide)
    simp only [hsv, false_or, isPeerKey, Bool.and_eq_true, Bool.or_eq_true, decide_eq_true_iff, ← and_or_left]
  rw [isLifecycleKey, hlf, hl, hp, isLifecycleName]

theorem getTable_kept (hns : 0x00 ∉ ns) (hk : (isLifecycleName ns || isPeerKey ns key) = true) :
    (s.getTable (encodeDataKey ns key)).table = s.lifecycleTable ∧ (s.getTable (encodeDataKey ns key)).created = none := by
  rw [getTable]
  by_cases hl : lastLifecycleBlockNumberKey = encodeDataKey ns key
  · rw [if_pos hl]
    exact ⟨rfl, rfl⟩
  · rw [if_neg hl, if_pos ((isLifecycleKey_encodeDataKey hns).trans hk)]
    exact ⟨rfl, rfl⟩

theorem getTable_own (hns : 0x00 ∉ ns) (hk : (isLifecycleName ns || isPeerKey ns key) = false) :
    s.getTable (encodeDataKey ns key) = s.dynamicTable ns := by
  have hl : lastLifecycleBlockNumberKey ≠ encodeDataKey ns key := by
    intro h
    obtain ⟨rfl, rfl⟩ := (encodeDataKey_eq_lastLifecycle hns).mp h.symm
    revert hk
    decide
  rw [getTable, if_neg hl, if_neg (by rw [isLifecycleKey_encodeDataKey hns, hk]; exact Bool.false_ne_true)]
  change s.dynamicTable (beforeSep (ns ++ 0x00 :: key)) = _
  rw [beforeSep_append_sep hns]

theorem tableName_inj {name' : Bytes} (h : s.tableName name = s.tableName name') : name = name' :=
  append_cancel_left h

def isOtherTable (s : SqlSchema) (ns key : Bytes) : Bool :=
  ((ascii "lscc").isPrefixOf ns && ns ≠ ascii "lscc" && ns ≠ s.peerid ++ ascii "_lifecycle") || isPeerKey ns key

theorem tableName_eq_lifecycleTable_iff : s.tableName name = s.lifecycleTable ↔ name = s.peerid ++ ascii "_lifecycle" :=
  ⟨tableName_inj, fun h => h ▸ rfl⟩

theorem not_lscc_of_lifecycle (h : (ascii "_lifecycle").isPrefixOf ns = true) : (ascii "lscc").isPrefixOf ns = false := by
  cases ns with
  | nil => rfl
  | cons c ns =>
    have hc : c = 0x5f := by
      have := (Bool.and_eq_true _ _).mp ((isPrefixOf_cons_cons).symm.trans h)
      exact (eq_of_beq this.1).symm
    subst hc
    rfl

theorem getTableFromNamespace_system (h : ((ascii "_lifecycle").isPrefixOf ns || ns = ascii "lscc") = true) :
    (s.getTableFromNamespace ns).table = s.lifecycleTable := by
  rw [getTableFromNamespace, if_pos h]

theorem getTableFromNamespace_own (h : ((ascii "_lifecycle").isPrefixOf ns || ns = ascii "lscc") = false) :
    s.getTableFromNamespace ns = s.dynamicTable ns := by
  rw [getTableFromNamespace, if_neg (by rw [h]; exact Bool.false_ne_true)]

theorem table_eq_iff_peerKey (hns : 0x00 ∉ ns) (hp : isPeerKey ns key = true) :
    (s.getTableFromNamespace ns).table = (s.getTable (encodeDataKey ns key)).table ↔ s.isOtherTable ns key = false := by
  have hnil : ns = [] := by
    rw [isPeerKey, Bool.and_eq_true, decide_eq_true_iff] at hp
    exact hp.1
  have hne : s.tableName [] ≠ s.lifecycleTable := by
    rw [Ne, tableName_eq_lifecycleTable_iff]
    intro h
    have hlen := congrArg List.length h
    rw [length_append] at hlen
    have hlf : (ascii "_lifecycle").length = 10 := by decide
    rw [length_nil] at hlen
    omega
  rw [(getTable_kept hns (by rw [hp, Bool.or_true])).1, isOtherTable, hp, hnil,
    getTableFromNamespace_own (by decide)]
  exact iff_of_false hne Bool.noConfusion

theorem table_eq_iff (hns : 0x00 ∉ ns) :
    (s.getTableFromNamespace ns).table = (s.getTable (encodeDataKey ns key)).table ↔ s.isOtherTable ns key = false := by
  by_cases hp : isPeerKey ns key = true
  · exact table_eq_iff_peerKey hns hp
  · rw [Bool.not_eq_true] at hp
    by_cases hl : (ascii "lscc").isPrefixOf ns = true
    · have hk : (isLifecycleName ns || isPeerKey ns key) = true := by
        rw [isLifecycleName, hl, Bool.or_true, Bool.true_or]
      rw [(getTable_kept hns hk).1, isOtherTable, hl, hp, Bool.or_false]
      by_cases hn : ns = ascii "lscc"
      · rw [getTableFromNamespace_system (by rw [hn]; decide)]
        simp [hn]
      · have hlf : (ascii "_lifecycle").isPrefixOf ns = false := by
          by_contra h
          rw [not_lscc_of_lifecycle (by simpa using h)] at hl
          cases hl
        rw [getTableFromNamespace_own (by simp [hlf, hn])]
        simp [hn, dynamicTable, tableName_eq_lifecycleTable_iff]
    · rw [Bool.not_eq_true] at hl
      rw [isOtherTable, hl, hp, Bool.false_and, Bool.or_false]
      by_cases hlf : (ascii "_lifecycle").isPrefixOf ns = true
      · rw [getTableFromNamespace_system (by rw [hlf, Bool.true_or]),
          (getTable_kept hns (by rw [isLifecycleName, hlf, Bool.true_or, Bool.true_or])).1]
        simp
      · rw [Bool.not_eq_true] at hlf
        have hn : ns ≠ ascii "lscc" := by
          rintro rfl
          exact absurd hl (by decide)
        rw [getTableFromNamespace_own (by simp [hlf, hn]),
          getTable_own hns (by rw [isLifecycleName, hlf, hl, hp]; rfl)]
        simp

end SqlSchema

end Drunix.Ledger.StateSql
