import Mathlib.Data.List.AList
import Mathlib.Data.List.Induction

namespace Drunix.Lib

open List

/-- Finite maps with a plain value type; iteration order is the order of the entries. -/
abbrev AMap (K V : Type) := AList (fun _ : K => V)

namespace AMap

variable {K K' V W α O S : Type} [DecidableEq K] [DecidableEq K'] {m : AMap K V} {e : K × V} {l : List (K × V)} {k : K}
  {v : V} {f : S → K × V → S}

theorem lookup_insert_eq (m : AMap K V) (k k' : K) (v : V) :
    (m.insert k v).lookup k' = if k' = k then some v else m.lookup k' := by
  split_ifs with h
  · rw [h, AList.lookup_insert]
  · exact AList.lookup_insert_ne h

def modify (m : AMap K V) (k : K) (f : Option V → V) : AMap K V :=
  m.insert k (f (m.lookup k))

theorem lookup_modify (m : AMap K V) (k k' : K) (f : Option V → V) :
    (m.modify k f).lookup k' = if k' = k then some (f (m.lookup k)) else m.lookup k' :=
  lookup_insert_eq ..

theorem lookup_foldl_modify (f : Option V → O → V) (l : List (K × O)) (m : AMap K V) (k : K) :
    (l.foldl (fun m e => m.modify e.1 fun v => f v e.2) m).lookup k =
      (l.filter fun e => e.1 = k).foldl (fun v e => some (f v e.2)) (m.lookup k) := by
  induction l generalizing m with
  | nil => rfl
  | cons e l ih =>
    rw [foldl_cons, ih, lookup_modify]
    by_cases h : e.1 = k
    · subst h
      simp
    · rw [if_neg (Ne.symm h), filter_cons_of_neg (by simpa using h)]

theorem length_eq_zero_iff (m : AMap K V) : m.entries.length = 0 ↔ ∀ k, m.lookup k = none := by
  rw [List.length_eq_zero_iff]
  constructor
  · intro h k
    rw [AList.lookup_eq_none, AList.mem_keys, AList.keys, h]
    exact not_mem_nil
  · intro h
    refine eq_nil_iff_forall_not_mem.mpr ?_
    intro e he
    have hk : m.lookup e.1 = some e.2 := AList.mem_lookup_iff.mpr he
    rw [h e.1] at hk
    cases hk

def toPairs (m : AMap K V) : List (K × V) :=
  m.entries.map fun e => (e.1, e.2)

theorem mem_toPairs : e ∈ m.toPairs ↔ m.lookup e.1 = some e.2 := by
  rw [toPairs, mem_map]
  constructor
  · rintro ⟨e', he', rfl⟩
    exact AList.mem_lookup_iff.mpr he'
  · intro h
    exact ⟨⟨e.1, e.2⟩, AList.mem_lookup_iff.mp h, rfl⟩

omit [DecidableEq K] in
theorem nodup_toPairs (m : AMap K V) : m.toPairs.Nodup := by
  refine List.Nodup.map ?_ m.nodupKeys.nodup
  rintro ⟨k, v⟩ ⟨k', v'⟩ h
  cases h
  rfl

omit [DecidableEq K] in
theorem nodup_keys_toPairs (m : AMap K V) : (m.toPairs.map Prod.fst).Nodup := by
  rw [toPairs, map_map]
  exact m.nodupKeys

theorem foldl_frame {β : Type} {l : List β} {f : S → β → S} (obs : S → O) (h : ∀ s, ∀ e ∈ l, obs (f s e) = obs s) (s : S) :
    obs (l.foldl f s) = obs s :=
  foldlRecOn (motive := fun s' => obs s' = obs s) l f rfl fun s' hs e he => (h s' e he).trans hs

theorem foldl_entries_of_frame {f : S → (Sigma fun _ : K => V) → S} (obs : S → O) (g : V → O → O)
    (hot : ∀ s, ∀ e ∈ m.entries, e.1 ≠ k → obs (f s e) = obs s)
    (hsl : ∀ s v, m.lookup k = some v → obs (f s ⟨k, v⟩) = g v (obs s)) (s : S) :
    obs (m.entries.foldl f s) = (m.lookup k).elim (obs s) fun v => g v (obs s) := by
  cases hl : m.lookup k with
  | none =>
    refine foldl_frame obs (fun s e he => hot s e he ?_) s
    rintro rfl
    exact AList.lookup_eq_none.mp hl (mem_keys_of_mem he)
  | some v =>
    obtain ⟨pre, post, hsp⟩ := append_of_mem (AList.mem_lookup_iff.mp hl)
    have hnd := m.nodupKeys
    rw [hsp, NodupKeys, keys, map_append, map_cons, nodup_append, nodup_cons] at hnd
    have hne : ∀ e ∈ pre ++ post, e ∈ m.entries ∧ e.1 ≠ k := by
      intro e he
      rcases mem_append.mp he with he | he
      · exact ⟨by simp [hsp, he], hnd.2.2 _ (mem_map.mpr ⟨e, he, rfl⟩) _ mem_cons_self⟩
      · refine ⟨by simp [hsp, he], fun hk => hnd.2.1.1 ?_⟩
        exact mem_map.mpr ⟨e, he, hk⟩
    have hf : ∀ s, ∀ e ∈ pre ++ post, obs (f s e) = obs s := fun s e he => hot s e (hne e he).1 (hne e he).2
    rw [hsp, foldl_append, foldl_cons, foldl_frame obs fun s e he => hf s e (mem_append_right _ he),
      hsl _ v hl, foldl_frame obs fun s e he => hf s e (mem_append_left _ he)]
    rfl

theorem foldl_toPairs_of_frame (obs : S → O) (g : V → O → O) (hot : ∀ s, ∀ e ∈ m.toPairs, e.1 ≠ k → obs (f s e) = obs s)
    (hsl : ∀ s v, m.lookup k = some v → obs (f s (k, v)) = g v (obs s)) (s : S) :
    obs (m.toPairs.foldl f s) = (m.lookup k).elim (obs s) fun v => g v (obs s) := by
  rw [toPairs, foldl_map]
  exact foldl_entries_of_frame obs g (fun s e he => hot s _ (mem_map.mpr ⟨e, he, rfl⟩)) hsl s

theorem lookup_foldl_insert (l : List K) (v : V) (m : AMap K V) (k : K) :
    AList.lookup k (l.foldl (fun m k => m.insert k v) m) = if k ∈ l then some v else m.lookup k := by
  induction l generalizing m with
  | nil => rfl
  | cons k' l ih =>
    rw [foldl_cons, ih, lookup_insert_eq]
    by_cases h : k = k' <;> simp [h]

theorem lookup_foldl_insert_of_agree (h : ∀ e ∈ l, e.1 = k → e.2 = v) (m : AMap K V) :
    (l.foldl (fun m e => m.insert e.1 e.2) m).lookup k = if k ∈ l.map Prod.fst then some v else m.lookup k := by
  induction l generalizing m with
  | nil => rfl
  | cons e l ih =>
    rw [forall_mem_cons] at h
    rw [foldl_cons, ih h.2, lookup_insert_eq, map_cons]
    by_cases hk : k = e.1
    · simp [hk, h.1 hk.symm]
    · simp only [mem_cons, hk, if_false, false_or]

theorem lookup_foldl_elim_insert (f : K → Option V) (l : List K) (m : AMap K V) (k : K) :
    AList.lookup k (l.foldl (fun m k => (f k).elim m fun v => m.insert k v) m) =
      if k ∈ l then (f k).or (m.lookup k) else m.lookup k := by
  induction l generalizing m with
  | nil => rfl
  | cons k' l ih =>
    rw [foldl_cons, ih]
    cases hf : f k' with
    | none => by_cases h : k = k' <;> simp [h, hf]
    | some v => by_cases h : k = k' <;> simp [h, hf, lookup_insert_eq]

theorem mem_of_lookup_foldl_insert (h : (l.foldl (fun m e => m.insert e.1 e.2) (∅ : AMap K V)).lookup k = some v) :
    (k, v) ∈ l := by
  induction l using List.reverseRecOn with
  | nil => cases h
  | append_singleton l e ih =>
    rw [foldl_concat, lookup_insert_eq] at h
    split_ifs at h with hk
    · cases h
      simp [hk]
    · simp [ih h]

theorem exists_lookup_foldl_insert (h : e ∈ l) (m : AMap K V) :
    ∃ v, (l.foldl (fun m e => m.insert e.1 e.2) m).lookup e.1 = some v := by
  induction l using List.reverseRecOn with
  | nil => cases h
  | append_singleton l e' ih =>
    rw [foldl_concat, lookup_insert_eq]
    split_ifs with hk
    · exact ⟨e'.2, rfl⟩
    · refine ih ?_
      rcases mem_append.mp h with h | h
      · exact h
      · exact absurd (congrArg Prod.fst (mem_singleton.mp h)) hk

theorem lookup_foldl_insert_iff (h : ∀ e ∈ l, ∀ e' ∈ l, e.1 = e'.1 → e.2 = e'.2) :
    (l.foldl (fun m e => m.insert e.1 e.2) (∅ : AMap K V)).lookup k = some v ↔ (k, v) ∈ l := by
  refine ⟨mem_of_lookup_foldl_insert, fun hm => ?_⟩
  obtain ⟨v', hv'⟩ := exists_lookup_foldl_insert hm ∅
  rw [hv']
  exact congrArg some (h _ (mem_of_lookup_foldl_insert hv') _ hm rfl)

omit [DecidableEq K] in
theorem nodupKeys_filterMap (f : K → V → Option W) {l : List (Sigma fun _ : K => V)} (h : l.NodupKeys) :
    (l.filterMap fun e => (f e.1 e.2).map fun w => (⟨e.1, w⟩ : Sigma fun _ : K => W)).NodupKeys := by
  rw [nodupKeys_iff_pairwise, pairwise_filterMap]
  refine (nodupKeys_iff_pairwise.mp h).imp ?_
  intro e e' hne x hx y hy hxy
  obtain ⟨w, _, rfl⟩ := Option.map_eq_some_iff.mp hx
  obtain ⟨w', _, rfl⟩ := Option.map_eq_some_iff.mp hy
  exact hne hxy

def filterMap (f : K → V → Option W) (m : AMap K V) : AMap K W where
  entries := m.entries.filterMap fun e => (f e.1 e.2).map fun w => ⟨e.1, w⟩
  nodupKeys := nodupKeys_filterMap f m.nodupKeys

theorem lookup_filterMap (f : K → V → Option W) (m : AMap K V) (k : K) :
    (m.filterMap f).lookup k = (m.lookup k).bind (f k) := by
  apply Option.ext
  intro w
  rw [← Option.mem_def, AList.mem_lookup_iff, filterMap]
  simp only [mem_filterMap, Option.map_eq_some_iff, Option.bind_eq_some_iff]
  constructor
  · rintro ⟨⟨k', v⟩, he, w', hf, hw⟩
    cases hw
    exact ⟨v, AList.mem_lookup_iff.mpr he, hf⟩
  · rintro ⟨v, hv, hf⟩
    exact ⟨⟨k, v⟩, AList.mem_lookup_iff.mp hv, w, hf, rfl⟩

def overlay (enc : K → K') (f : V → Option α) (m : AMap K V) (s : K' → Option α) : K' → Option α :=
  m.foldl (fun s k v => Function.update s (enc k) (f v)) s

omit [DecidableEq K] in
theorem overlay_of_notMem (enc : K → K') (f : V → Option α) (m : AMap K V) (s : K' → Option α) (k' : K')
    (h : ∀ k ∈ m, enc k ≠ k') : m.overlay enc f s k' = s k' := by
  refine foldl_frame (fun s : K' → Option α => s k') (fun s e he => ?_) s
  exact Function.update_of_ne (h e.1 (mem_keys_of_mem he)).symm _ _

section

variable (enc : K → K') (f : V → Option α) (m : AMap K V) (s : K' → Option α)

theorem overlay_apply (k : K) (hinj : ∀ k₁ ∈ m, enc k₁ = enc k → k₁ = k) :
    m.overlay enc f s (enc k) = (m.lookup k).elim (s (enc k)) f := by
  refine foldl_entries_of_frame (fun s : K' → Option α => s (enc k)) (fun v _ => f v) (fun s e he hne => ?_) ?_ s
  · exact Function.update_of_ne (fun hk => hne (hinj e.1 (mem_keys_of_mem he) hk.symm)) _ _
  · exact fun s v _ => Function.update_self _ _ _

end

def mapKeys (enc : K → K') (m : AMap K V) : AMap K' V :=
  m.entries.foldl (fun m' e => m'.insert (enc e.1) e.2) ∅

theorem lookup_mapKeys (enc : K → K') (m : AMap K V) (k : K) (hinj : ∀ k₁ ∈ m, enc k₁ = enc k → k₁ = k) :
    (m.mapKeys enc).lookup (enc k) = m.lookup k := by
  have h := foldl_entries_of_frame (m := m) (k := k) (f := fun m' e => m'.insert (enc e.1) e.2)
    (fun m' : AMap K' V => m'.lookup (enc k)) (fun v _ => some v) (fun m' e he hne => ?_) ?_ ∅
  · rw [mapKeys, h]
    cases m.lookup k <;> rfl
  · exact AList.lookup_insert_ne fun hk => hne (hinj e.1 (mem_keys_of_mem he) hk.symm)
  · exact fun m' v _ => AList.lookup_insert m'

omit [DecidableEq K] in
theorem exists_of_lookup_mapKeys {enc : K → K'} {k' : K'} (h : (m.mapKeys enc).lookup k' = some v) :
    ∃ k ∈ m, enc k = k' := by
  by_contra hn
  rw [mapKeys, foldl_frame fun m' : AMap K' V => m'.lookup k'] at h
  · cases h
  · exact fun m' e he => AList.lookup_insert_ne fun hk => hn ⟨e.1, mem_keys_of_mem he, hk.symm⟩

end AMap

end Drunix.Lib
