import Drunix.Lib.Lists
import Drunix.Proto.Messages

namespace Drunix.Ledger

open Lib Proto

/-- Key of the versioned key-value database, `stateleveldb.encodeDataKey`; the orderer has its own
copy of the function. -/
def encodeDataKey (ns key : Bytes) : Bytes :=
  0x64 :: ns ++ 0x00 :: key

def deriveHashedDataNs (ns coll : Bytes) : Bytes :=
  ns ++ ascii "$$h" ++ coll

/-- `validation.compositeKey`: the public key `key` of `ns` when `coll` is empty, and otherwise the
key hash `key` of the collection. -/
structure CompositeKey where
  ns : Bytes
  coll : Bytes
  key : Bytes
  deriving DecidableEq

def CompositeKey.dataKey (c : CompositeKey) : Bytes :=
  if c.coll = [] then encodeDataKey c.ns c.key else encodeDataKey (deriveHashedDataNs c.ns c.coll) c.key

theorem CompositeKey.dataKey_public (ns key : Bytes) : dataKey ⟨ns, [], key⟩ = encodeDataKey ns key :=
  if_pos rfl

theorem CompositeKey.dataKey_hashed {c : CompositeKey} (h : c.coll ≠ []) :
    c.dataKey = encodeDataKey (deriveHashedDataNs c.ns c.coll) c.key :=
  if_neg h

structure CompositeKey.WellNamed (c : CompositeKey) : Prop where
  ns_zero : 0x00 ∉ c.ns
  ns_dollar : 0x24 ∉ c.ns
  coll_zero : 0x00 ∉ c.coll

theorem deriveHashedDataNs_eq (ns coll : Bytes) :
    deriveHashedDataNs ns coll = ns ++ 0x24 :: 0x24 :: 0x68 :: coll := by
  have h : ascii "$$h" = [0x24, 0x24, 0x68] := by decide
  simp [deriveHashedDataNs, h]

theorem encodeDataKey_inj {ns ns' key key' : Bytes} (h₁ : 0x00 ∉ ns) (h₂ : 0x00 ∉ ns')
    (h : encodeDataKey ns key = encodeDataKey ns' key') : ns = ns' ∧ key = key' :=
  append_cons_inj h₁ h₂ (List.cons.inj h).2

theorem zero_notMem_deriveHashedDataNs {ns coll : Bytes} (h₁ : 0x00 ∉ ns) (h₂ : 0x00 ∉ coll) :
    0x00 ∉ deriveHashedDataNs ns coll := by
  rw [deriveHashedDataNs_eq]
  simp [h₁, h₂]

theorem CompositeKey.dataKey_inj {c c' : CompositeKey} (hc : c.WellNamed) (hc' : c'.WellNamed)
    (h : c.dataKey = c'.dataKey) : c = c' := by
  have hz := zero_notMem_deriveHashedDataNs hc.ns_zero hc.coll_zero
  have hz' := zero_notMem_deriveHashedDataNs hc'.ns_zero hc'.coll_zero
  rw [deriveHashedDataNs_eq] at hz hz'
  obtain ⟨ns, coll, key⟩ := c
  obtain ⟨ns', coll', key'⟩ := c'
  simp only [dataKey, deriveHashedDataNs_eq] at h
  by_cases hp : coll = [] <;> by_cases hp' : coll' = []
  · subst hp hp'
    obtain ⟨rfl, rfl⟩ := encodeDataKey_inj hc.ns_zero hc'.ns_zero h
    rfl
  · subst hp
    simp only [if_true, if_neg hp'] at h
    obtain ⟨rfl, _⟩ := encodeDataKey_inj hc.ns_zero hz' h
    exact absurd hc.ns_dollar (by simp)
  · subst hp'
    simp only [if_true, if_neg hp] at h
    obtain ⟨rfl, _⟩ := encodeDataKey_inj hz hc'.ns_zero h
    exact absurd hc'.ns_dollar (by simp)
  · simp only [if_neg hp, if_neg hp'] at h
    obtain ⟨hns, rfl⟩ := encodeDataKey_inj hz hz' h
    obtain ⟨rfl, hcl⟩ := append_cons_inj hc.ns_dollar hc'.ns_dollar hns
    cases hcl
    rfl

end Drunix.Ledger
