import Mathlib.Data.List.Lex
import Mathlib.Data.List.Sort

namespace Drunix.Lib

open List

variable {K V : Type} [LT K] [IsStrictTotalOrder K (· < ·)] {e : K × V} {l : List (K × V)}

instance uint8StrictTotalOrder : IsStrictTotalOrder UInt8 (· < ·) where
  trichotomous _ _ hab hba := UInt8.le_antisymm (UInt8.not_lt.mp hba) (UInt8.not_lt.mp hab)
  irrefl a := UInt8.lt_irrefl a
  trans _ _ _ := UInt8.lt_trans

instance bytesStrictTotalOrder : IsStrictTotalOrder (List UInt8) (· < ·) :=
  have h : IsStrictTotalOrder (List UInt8) (List.Lex (· < ·)) := { isStrictWeakOrder_of_isOrderConnected with }
  h

def KeySorted (l : List (K × V)) : Prop :=
  l.Pairwise fun a b => a.1 < b.1

omit [IsStrictTotalOrder K (· < ·)] in
theorem keySorted_cons : KeySorted (e :: l) ↔ (∀ a ∈ l, e.1 < a.1) ∧ KeySorted l :=
  pairwise_cons

theorem KeySorted.forall_lt (h : KeySorted (e :: l)) {k : K} (hk : k < e.1) : ∀ a ∈ e :: l, k < a.1 := by
  intro a ha
  rcases mem_cons.mp ha with rfl | ha
  · exact hk
  · exact IsTrans.trans _ _ _ hk ((keySorted_cons.mp h).1 a ha)

theorem KeySorted.eq_of_mem_iff {l₁ l₂ : List (K × V)} (h₁ : KeySorted l₁) (h₂ : KeySorted l₂)
    (h : ∀ e, e ∈ l₁ ↔ e ∈ l₂) : l₁ = l₂ := by
  exact List.Pairwise.eq_of_mem_iff h₁ h₂ h

omit [IsStrictTotalOrder K (· < ·)] in
theorem KeySorted.filter (h : KeySorted l) (p : K × V → Bool) : KeySorted (l.filter p) :=
  List.Pairwise.filter p h

variable [DecidableLT K] {db upd : List (K × V)}

def unionRight : List (K × V) → List (K × V) → List (K × V)
  | [], upd => upd
  | d :: db, [] => d :: db
  | d :: db, e :: upd =>
    if d.1 < e.1 then d :: unionRight db (e :: upd)
    else if e.1 < d.1 then e :: unionRight (d :: db) upd
    else e :: unionRight db upd
termination_by db upd => db.length + upd.length

theorem mem_unionRight (hdb : KeySorted db) (hu : KeySorted upd) (x : K × V) :
    x ∈ unionRight db upd ↔ x ∈ upd ∨ x ∈ db ∧ x.1 ∉ upd.map Prod.fst := by
  induction db, upd using unionRight.induct with
  | case1 upd => simp [unionRight]
  | case2 d db => simp [unionRight]
  | case3 d db e upd hlt ih =>
    have hf : x = d → x.1 ∉ (e :: upd).map Prod.fst := by
      rintro rfl hm
      obtain ⟨a, ha, had⟩ := mem_map.mp hm
      have hlt' := hu.forall_lt hlt a ha
      exact Std.Irrefl.irrefl _ (had ▸ hlt')
    rw [unionRight, if_pos hlt, mem_cons, ih (keySorted_cons.mp hdb).2 hu, mem_cons (l := db)]
    tauto
  | case4 d db e upd hlt hgt ih =>
    have hf : x ∈ d :: db → x.1 ≠ e.1 := by
      intro hx hxe
      have hlt' := hdb.forall_lt hgt x hx
      exact Std.Irrefl.irrefl _ (hxe ▸ hlt')
    rw [unionRight, if_neg hlt, if_pos hgt, mem_cons, ih hdb (keySorted_cons.mp hu).2, mem_cons (l := upd),
      map_cons, mem_cons (l := upd.map Prod.fst)]
    tauto
  | case5 d db e upd hlt hgt ih =>
    have heq : d.1 = e.1 := Std.Trichotomous.trichotomous _ _ hlt hgt
    have hd : x = d → x.1 = e.1 := fun hx => hx ▸ heq
    have hf : x ∈ db → x.1 ≠ e.1 := by
      intro hx hxe
      have hlt' := (keySorted_cons.mp hdb).1 x hx
      exact Std.Irrefl.irrefl _ (heq.trans hxe.symm ▸ hlt')
    rw [unionRight, if_neg hlt, if_neg hgt, mem_cons,
      ih (keySorted_cons.mp hdb).2 (keySorted_cons.mp hu).2, mem_cons, mem_cons,
      map_cons, mem_cons]
    tauto

theorem forall_lt_unionRight (hdb : KeySorted db) (hu : KeySorted upd) {k : K} (hd : ∀ a ∈ db, k < a.1)
    (he : ∀ a ∈ upd, k < a.1) : ∀ a ∈ unionRight db upd, k < a.1 := fun a ha =>
  ((mem_unionRight hdb hu a).mp ha).elim (he a) fun ha => hd a ha.1

theorem KeySorted.unionRight (hdb : KeySorted db) (hu : KeySorted upd) : KeySorted (unionRight db upd) := by
  induction db, upd using unionRight.induct with
  | case1 upd => simpa [Lib.unionRight] using hu
  | case2 d db => simpa [Lib.unionRight] using hdb
  | case3 d db e upd hlt ih =>
    obtain ⟨hd, hdb⟩ := keySorted_cons.mp hdb
    rw [Lib.unionRight, if_pos hlt, keySorted_cons]
    exact ⟨forall_lt_unionRight hdb hu hd (hu.forall_lt hlt), ih hdb hu⟩
  | case4 d db e upd hlt hgt ih =>
    obtain ⟨he, hu⟩ := keySorted_cons.mp hu
    rw [Lib.unionRight, if_neg hlt, if_pos hgt, keySorted_cons]
    exact ⟨forall_lt_unionRight hdb hu (hdb.forall_lt hgt) he, ih hdb hu⟩
  | case5 d db e upd hlt hgt ih =>
    have heq : d.1 = e.1 := Std.Trichotomous.trichotomous _ _ hlt hgt
    obtain ⟨hd, hdb⟩ := keySorted_cons.mp hdb
    obtain ⟨he, hu⟩ := keySorted_cons.mp hu
    rw [Lib.unionRight, if_neg hlt, if_neg hgt, keySorted_cons]
    exact ⟨forall_lt_unionRight hdb hu (heq ▸ hd) he, ih hdb hu⟩

def sortByKey (l : List (K × V)) : List (K × V) :=
  l.insertionSort fun a b => ¬ b.1 < a.1

omit [IsStrictTotalOrder K (· < ·)] in
theorem mem_sortByKey : e ∈ sortByKey l ↔ e ∈ l :=
  mem_insertionSort _

theorem keySorted_sortByKey (h : (l.map Prod.fst).Nodup) : KeySorted (sortByKey l) := by
  have ht : Std.Total fun a b : K × V => ¬ b.1 < a.1 :=
    ⟨fun a b => by
      by_cases hab : b.1 < a.1
      · exact .inr fun hba => Std.Irrefl.irrefl _ (IsTrans.trans _ _ _ hab hba)
      · exact .inl hab⟩
  have htr : IsTrans (K × V) fun a b => ¬ b.1 < a.1 :=
    ⟨fun a b c hab hbc hca => by
      by_cases heq : a.1 = b.1
      · exact hbc (heq ▸ hca)
      · have hlt : a.1 < b.1 := by
          by_contra hn
          exact heq (Std.Trichotomous.trichotomous _ _ hn hab)
        exact hbc (IsTrans.trans _ _ _ hca hlt)⟩
  have hle := pairwise_insertionSort (fun a b : K × V => ¬ b.1 < a.1) l
  have hne : (sortByKey l).Pairwise fun a b => a.1 ≠ b.1 := by
    apply pairwise_map.mp
    exact ((perm_insertionSort _ l).map Prod.fst).nodup_iff.mpr h
  refine (hle.and hne).imp ?_
  rintro a b ⟨hba, hab⟩
  by_contra hn
  exact hab (Std.Trichotomous.trichotomous _ _ hn hba)

/-- `l` lists the entries of the partial map `f` at the keys in `p`, in the order of the keys. -/
structure Enumerates (l : List (K × V)) (f : K → Option V) (p : K → Prop) : Prop where
  sorted : KeySorted l
  mem_iff : ∀ k v, (k, v) ∈ l ↔ p k ∧ f k = some v

namespace Enumerates

variable {l l₁ l₂ : List (K × V)} {f f₁ f₂ : K → Option V} {p : K → Prop}

omit [DecidableLT K] in
theorem unique (h₁ : Enumerates l₁ f p) (h₂ : Enumerates l₂ f p) : l₁ = l₂ := by
  apply h₁.sorted.eq_of_mem_iff h₂.sorted
  rintro ⟨k, v⟩
  rw [h₁.mem_iff, h₂.mem_iff]

theorem unionRight (h₁ : Enumerates l₁ f₁ p) (h₂ : Enumerates l₂ f₂ p) :
    Enumerates (unionRight l₁ l₂) (fun k => (f₂ k).or (f₁ k)) p where
  sorted := h₁.sorted.unionRight h₂.sorted
  mem_iff := by
    intro k v
    have hk : k ∈ l₂.map Prod.fst ↔ p k ∧ (f₂ k).isSome := by
      rw [mem_map, Option.isSome_iff_exists]
      constructor
      · rintro ⟨⟨k', v'⟩, hm, rfl⟩
        exact ⟨((h₂.mem_iff _ _).mp hm).1, v', ((h₂.mem_iff _ _).mp hm).2⟩
      · rintro ⟨hp, v', hv'⟩
        exact ⟨(k, v'), (h₂.mem_iff _ _).mpr ⟨hp, hv'⟩, rfl⟩
    rw [mem_unionRight h₁.sorted h₂.sorted, h₁.mem_iff, h₂.mem_iff, hk]
    cases h : f₂ k with
    | none => simp
    | some v' => simp +contextual

omit [IsStrictTotalOrder K (· < ·)] [DecidableLT K] in
theorem filter (h : Enumerates l f p) (q : V → Bool) :
    Enumerates (l.filter fun e => q e.2) (fun k => (f k).filter q) p where
  sorted := h.sorted.filter _
  mem_iff := by
    intro k v
    rw [mem_filter, h.mem_iff, Option.filter_eq_some_iff, and_assoc]

end Enumerates

end Drunix.Lib
