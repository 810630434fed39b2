import Mathlib.Data.List.Perm.Basic

namespace Drunix.Lib

open List

/-- Result of a call that may return an error value or be aborted by a run-time panic. -/
inductive Outcome (ε α : Type) where
  | ok (a : α)
  | err (e : ε)
  | panic
  deriving DecidableEq

namespace Outcome

variable {ε α β σ γ ε' : Type} {x : Outcome ε α} {l : List α} {f : α → Outcome ε β} {b : β} {p : Option α} {a : α}
  {e : ε} {g : σ → α → σ} {s s' : σ} {r : Outcome ε Unit}

def bind : Outcome ε α → (α → Outcome ε β) → Outcome ε β
  | ok a, f => f a
  | err e, _ => err e
  | panic, _ => panic

instance : Monad (Outcome ε) where
  pure := ok
  bind := bind

instance : LawfulMonad (Outcome ε) :=
  LawfulMonad.mk' (Outcome ε)
    (by intro _ x; cases x <;> rfl)
    (by intros; rfl)
    (by intro _ _ _ x _ _; cases x <;> rfl)

def deref : Option α → Outcome ε α
  | some a => ok a
  | none => panic

def orErr (e : ε) : Option α → Outcome ε α
  | some a => ok a
  | none => err e

def mapErr {ε' : Type} (f : ε → ε') : Outcome ε α → Outcome ε' α
  | ok a => ok a
  | err e => err (f e)
  | panic => panic

def orPanic : Outcome ε α → Outcome ε α
  | ok a => ok a
  | _ => panic

def require (c : Bool) (e : ε) : Outcome ε Unit :=
  if c then ok () else err e

def toOption : Outcome ε α → Option α
  | ok a => some a
  | _ => none

@[simp] theorem pure_eq (a : α) : (pure a : Outcome ε α) = ok a := rfl

@[simp] theorem ok_bind (a : α) (f : α → Outcome ε β) : (ok a >>= f) = f a := rfl

@[simp] theorem err_bind (e : ε) (f : α → Outcome ε β) : ((err e : Outcome ε α) >>= f) = err e := rfl

@[simp] theorem panic_bind (f : α → Outcome ε β) : ((panic : Outcome ε α) >>= f) = panic := rfl

theorem bind_eq_ok : (x >>= f) = ok b ↔ ∃ a, x = ok a ∧ f a = ok b := by
  cases x <;> simp

theorem bind_eq_panic : (x >>= f) = panic ↔ x = panic ∨ ∃ a, x = ok a ∧ f a = panic := by
  cases x <;> simp

theorem bind_ne_panic (hx : x ≠ panic) (hf : ∀ a, x = ok a → f a ≠ panic) : (x >>= f) ≠ panic := by
  rw [Ne, bind_eq_panic]
  rintro (h | ⟨a, ha, h⟩)
  · exact hx h
  · exact hf a ha h

theorem bind_eq_bind_iff {g : α → Outcome ε β} : (x >>= f) = (x >>= g) ↔ ∀ a, x = ok a → f a = g a := by
  cases x <;> simp

theorem bind_eq_of_map_eq {f : α → γ} {y : Outcome ε α} {k k' : α → Outcome ε β} (h : f <$> x = f <$> y)
    (hk : ∀ a b, x = ok a → f a = f b → k a = k' b) : (x >>= k) = (y >>= k') := by
  cases x <;> cases y <;> first
    | exact hk _ _ rfl (ok.inj h)
    | exact congrArg err (err.inj h)
    | rfl
    | cases h

@[simp] theorem deref_eq_ok : (deref p : Outcome ε α) = ok a ↔ p = some a := by
  cases p <;> simp [deref]

@[simp] theorem orErr_eq_ok : orErr e p = ok a ↔ p = some a := by
  cases p <;> simp [orErr]

@[simp] theorem mapErr_eq_ok {f : ε → ε'} : x.mapErr f = ok a ↔ x = ok a := by
  cases x <;> simp [mapErr]

@[simp] theorem orPanic_eq_ok : x.orPanic = ok a ↔ x = ok a := by
  cases x <;> simp [orPanic]

@[simp] theorem require_eq_ok {c : Bool} {u : Unit} : require c e = ok u ↔ c = true := by
  cases c <;> simp [require]

@[simp] theorem toOption_eq_some : x.toOption = some a ↔ x = ok a := by
  cases x <;> simp [toOption]

@[simp] theorem deref_eq_panic : (deref p : Outcome ε α) = panic ↔ p = none := by
  cases p <;> simp [deref]

@[simp] theorem orErr_ne_panic (e : ε) (p : Option α) : orErr e p ≠ panic := by
  cases p <;> simp [orErr]

@[simp] theorem mapErr_eq_panic {f : ε → ε'} : x.mapErr f = panic ↔ x = panic := by
  cases x <;> simp [mapErr]

@[simp] theorem require_ne_panic (c : Bool) (e : ε) : require c e ≠ panic := by
  cases c <;> simp [require]

def all (p : α → Outcome ε Bool) : List α → Outcome ε Bool
  | [] => ok true
  | a :: l => do
      if ← p a then all p l else ok false

variable {p : α → Outcome ε Bool}

theorem all_congr {q : α → Outcome ε Bool} (h : ∀ a ∈ l, p a = q a) : all p l = all q l := by
  induction l with
  | nil => rfl
  | cons a l ih =>
    rw [forall_mem_cons] at h
    rw [all, all, h.1, ih h.2]

theorem all_eq_true_iff : all p l = ok true ↔ ∀ a ∈ l, p a = ok true := by
  induction l with
  | nil => exact iff_of_true rfl (by simp)
  | cons a l ih =>
    rw [all, bind_eq_ok, forall_mem_cons]
    constructor
    · rintro ⟨b, hb, h⟩
      cases b with
      | true => exact ⟨hb, ih.mp h⟩
      | false => cases h
    · rintro ⟨ha, hl⟩
      exact ⟨true, ha, ih.mpr hl⟩

theorem exists_of_all_eq_ok_false (h : all p l = ok false) : ∃ a ∈ l, p a = ok false := by
  induction l with
  | nil => cases h
  | cons a l ih =>
    rw [all, bind_eq_ok] at h
    obtain ⟨b, hb, h⟩ := h
    cases b with
    | false => exact ⟨a, by simp, hb⟩
    | true =>
      obtain ⟨c, hc, hcf⟩ := ih h
      exact ⟨c, by simp [hc], hcf⟩

variable {f : σ → α → Outcome ε σ}

theorem foldlM_eq_ok_foldl (h : ∀ s, ∀ a ∈ l, f s a = ok (g s a)) : l.foldlM f s = ok (l.foldl g s) := by
  induction l generalizing s with
  | nil => rfl
  | cons a l ih =>
    rw [foldlM_cons, h s a (by simp), foldl_cons]
    exact ih fun s b hb => h s b (by simp [hb])

/-- A property of the state that every step keeps, and one of the elements that every step that returns has. -/
theorem foldlM_invariant_forall (P : σ → Prop) {Q : α → Prop} (hf : ∀ a ∈ l, ∀ s s', P s → f s a = ok s' → Q a ∧ P s')
    (hs : P s) (h : l.foldlM f s = ok s') : (∀ a ∈ l, Q a) ∧ P s' := by
  induction l generalizing s with
  | nil =>
    cases h
    exact ⟨by simp, hs⟩
  | cons a l ih =>
    rw [forall_mem_cons] at hf
    rw [foldlM_cons, bind_eq_ok] at h
    obtain ⟨s₁, hs₁, h⟩ := h
    obtain ⟨ha, hP⟩ := hf.1 s s₁ hs hs₁
    obtain ⟨hl, hP'⟩ := ih hf.2 hP h
    exact ⟨forall_mem_cons.mpr ⟨ha, hl⟩, hP'⟩

theorem foldlM_invariant (P : σ → Prop) (hf : ∀ a ∈ l, ∀ s s', P s → f s a = ok s' → P s') (hs : P s)
    (h : l.foldlM f s = ok s') : P s' :=
  (foldlM_invariant_forall (Q := fun _ => True) P (fun a ha s s' hs h => ⟨trivial, hf a ha s s' hs h⟩) hs h).2

theorem foldlM_eq_ok_iff {p : α → Prop} [DecidablePred p] (hf : ∀ s a, f s a = if p a then ok (g s a) else panic) :
    l.foldlM f s = ok s' ↔ (∀ a ∈ l, p a) ∧ s' = l.foldl g s := by
  induction l generalizing s with
  | nil => simp [eq_comm]
  | cons a l ih =>
    rw [foldlM_cons, hf, forall_mem_cons]
    by_cases ha : p a
    · rw [if_pos ha, ok_bind, ih]
      simp [ha]
    · simp [ha]

/-- The call returns no error value: what fails in it panics. -/
def NoError (x : Outcome ε α) : Prop :=
  ∀ e, x ≠ err e

theorem NoError.exists_ok (h : x.NoError) (hx : x ≠ panic) : ∃ a, x = ok a := by
  cases x with
  | ok a => exact ⟨a, rfl⟩
  | err e => exact absurd rfl (h e)
  | panic => exact absurd rfl hx

theorem noError_ok (a : α) : (ok a : Outcome ε α).NoError := by
  intro e h
  cases h

theorem noError_panic : (panic : Outcome ε α).NoError := by
  intro e h
  cases h

theorem noError_deref (p : Option α) : (deref p : Outcome ε α).NoError := by
  cases p with
  | none => exact noError_panic
  | some a => exact noError_ok a

theorem NoError.bind {f : α → Outcome ε β} (hx : x.NoError) (hf : ∀ a, (f a).NoError) :
    (x >>= f).NoError := by
  cases x with
  | ok a => exact hf a
  | err e => exact absurd rfl (hx e)
  | panic => exact noError_panic

variable {f : σ → α → Outcome ε σ}

theorem noError_foldlM (hf : ∀ s a, (f s a).NoError) (l : List α) (s : σ) : (l.foldlM f s).NoError := by
  induction l generalizing s with
  | nil => exact noError_ok s
  | cons a l ih => exact (hf s a).bind ih

variable {p : α → Outcome ε Bool}

theorem noError_all (hp : ∀ a, (p a).NoError) (l : List α) : (all p l).NoError := by
  induction l with
  | nil => exact noError_ok true
  | cons a l ih =>
    refine (hp a).bind ?_
    intro b
    cases b with
    | true => exact ih
    | false => exact noError_ok false

theorem exists_all_eq_ok (h : ∀ a ∈ l, ∃ b, p a = ok b) : ∃ b, all p l = ok b := by
  induction l with
  | nil => exact ⟨true, rfl⟩
  | cons a l ih =>
    rw [forall_mem_cons] at h
    obtain ⟨b, hb⟩ := h.1
    cases b with
    | false => exact ⟨false, by rw [all, hb]; rfl⟩
    | true =>
      obtain ⟨b, hb'⟩ := ih h.2
      exact ⟨b, by rw [all, hb, ok_bind, if_pos rfl, hb']⟩

theorem exists_foldlM_eq_ok (P : σ → Prop) (hf : ∀ a ∈ l, ∀ s, P s → ∃ s', f s a = ok s' ∧ P s') (hs : P s) :
    ∃ s', l.foldlM f s = ok s' := by
  induction l generalizing s with
  | nil => exact ⟨s, rfl⟩
  | cons a l ih =>
    rw [forall_mem_cons] at hf
    obtain ⟨s₁, hs₁, hP⟩ := hf.1 s hs
    obtain ⟨s', hs'⟩ := ih hf.2 hP
    exact ⟨s', by rw [foldlM_cons, hs₁, ok_bind, hs']⟩

def FirstFailure (f : α → Outcome ε Unit) (l : List α) (r : Outcome ε Unit) : Prop :=
  r ≠ ok () ∧ ∃ pre a post, l = pre ++ a :: post ∧ (∀ b ∈ pre, f b = ok ()) ∧ f a = r

variable {f : α → Outcome ε Unit}

theorem forM_eq_ok : l.forM f = ok () ↔ ∀ a ∈ l, f a = ok () := by
  induction l with
  | nil => simp
  | cons a l ih =>
    cases h : f a with
    | ok u => simpa [h] using ih
    | err e => simp [h]
    | panic => simp [h]

theorem firstFailure_of_forM_eq (hr : r ≠ ok ()) (h : l.forM f = r) : FirstFailure f l r := by
  induction l with
  | nil => exact absurd h.symm hr
  | cons a l ih =>
    change (f a >>= fun _ => l.forM f) = r at h
    by_cases ha : f a = ok ()
    · rw [ha] at h
      obtain ⟨_, pre, b, post, rfl, hp, hb⟩ := ih h
      exact ⟨hr, a :: pre, b, post, rfl, by simpa [ha] using hp, hb⟩
    · refine ⟨hr, [], a, l, rfl, by simp, ?_⟩
      cases hv : f a with
      | ok u => exact absurd hv ha
      | err e => simpa [hv] using h
      | panic => simpa [hv] using h

theorem FirstFailure.forM_eq (h : FirstFailure f l r) : l.forM f = r := by
  obtain ⟨hr, pre, a, post, rfl, hp, ha⟩ := h
  induction pre with
  | nil =>
    change (f a >>= fun _ => post.forM f) = r
    rw [ha]
    cases r with
    | ok u => exact absurd rfl hr
    | err e => rfl
    | panic => rfl
  | cons b pre ih =>
    change (f b >>= fun _ => (pre ++ a :: post).forM f) = r
    rw [hp b (by simp)]
    exact ih fun c hc => hp c (by simp [hc])

theorem exists_of_forM_eq_panic (h : l.forM f = panic) : ∃ a ∈ l, f a = panic := by
  obtain ⟨-, pre, a, post, rfl, -, ha⟩ := firstFailure_of_forM_eq (by simp) h
  exact ⟨a, by simp, ha⟩

theorem forM_cons_of_ne_ok (h : f a ≠ ok ()) : (a :: l).forM f = f a :=
  FirstFailure.forM_eq ⟨h, [], a, l, rfl, by simp, rfl⟩

/-- A loop that stops at the first failure ends alike for every order of its elements exactly if its
failures end alike. -/
theorem forM_perm_iff [DecidableEq α] (c : Outcome ε Unit → β) :
    (∀ l₁ l₂ : List α, l₁.Perm l → l₂.Perm l → c (l₁.forM f) = c (l₂.forM f)) ↔
      ∀ a ∈ l, ∀ b ∈ l, f a ≠ ok () → f b ≠ ok () → c (f a) = c (f b) := by
  constructor
  · intro h a ha b hb hfa hfb
    have hp : ∀ d ∈ l, (d :: l.erase d).Perm l := fun d hd => (perm_cons_erase hd).symm
    have heq := h _ _ (hp a ha) (hp b hb)
    rwa [forM_cons_of_ne_ok hfa, forM_cons_of_ne_ok hfb] at heq
  · intro h l₁ l₂ h₁ h₂
    by_cases hal : ∀ a ∈ l, f a = ok ()
    · rw [forM_eq_ok.mpr fun a ha => hal a (h₁.mem_iff.mp ha), forM_eq_ok.mpr fun a ha => hal a (h₂.mem_iff.mp ha)]
    · have hf : ∀ l' : List α, l'.Perm l → ∃ a ∈ l, f a ≠ ok () ∧ f a = l'.forM f := by
        intro l' hl'
        have hne : l'.forM f ≠ ok () := fun hok => hal fun a ha => forM_eq_ok.mp hok a (hl'.mem_iff.mpr ha)
        obtain ⟨-, pre, a, post, rfl, -, ha⟩ := firstFailure_of_forM_eq hne rfl
        exact ⟨a, hl'.mem_iff.mp (by simp), ha ▸ hne, ha⟩
      obtain ⟨a, ha, hfa, hca⟩ := hf l₁ h₁
      obtain ⟨b, hb, hfb, hcb⟩ := hf l₂ h₂
      rw [← hca, ← hcb]
      exact h a ha b hb hfa hfb

theorem forM_eq_forM_iff {g : α → Outcome ε Unit} :
    l.forM f = l.forM g ↔
      ((∀ a ∈ l, f a = ok ()) ∧ ∀ a ∈ l, g a = ok ()) ∨ ∃ r, FirstFailure f l r ∧ FirstFailure g l r := by
  constructor
  · intro h
    by_cases hok : l.forM f = ok ()
    · exact .inl ⟨forM_eq_ok.1 hok, forM_eq_ok.1 (h ▸ hok)⟩
    · exact .inr ⟨l.forM f, firstFailure_of_forM_eq hok rfl, firstFailure_of_forM_eq hok h.symm⟩
  · rintro (⟨hf, hg⟩ | ⟨r, hf, hg⟩)
    · rw [forM_eq_ok.2 hf, forM_eq_ok.2 hg]
    · rw [hf.forM_eq, hg.forM_eq]

section

variable {f : α → Outcome ε β} {l' : List β}

theorem mapM_ne_panic (hf : ∀ a ∈ l, f a ≠ panic) : l.mapM f ≠ panic := by
  induction l with
  | nil => simp
  | cons a l ih =>
    rw [forall_mem_cons] at hf
    rw [mapM_cons]
    refine bind_ne_panic hf.1 fun b _ => bind_ne_panic (ih hf.2) ?_
    simp

theorem mapM_eq_ok_iff : l.mapM f = ok l' ↔ Forall₂ (fun a b => f a = ok b) l l' := by
  induction l generalizing l' with
  | nil => simp [eq_comm]
  | cons a l ih =>
    rw [mapM_cons, forall₂_cons_left_iff]
    simp only [bind_eq_ok, ih, pure_eq, ok.injEq, exists_and_left, @eq_comm _ l']

theorem exists_mapM_eq_ok (h : ∀ a ∈ l, ∃ b, f a = ok b) : ∃ l', l.mapM f = ok l' := by
  induction l with
  | nil => exact ⟨[], rfl⟩
  | cons a l ih =>
    rw [forall_mem_cons] at h
    obtain ⟨b, hb⟩ := h.1
    obtain ⟨l', hl'⟩ := ih h.2
    exact ⟨b :: l', mapM_eq_ok_iff.mpr (.cons hb (mapM_eq_ok_iff.mp hl'))⟩

theorem mapM_perm {l₂ : List α} (hp : l.Perm l₂) (h : l.mapM f = ok l') :
    ∃ l₂', l₂.mapM f = ok l₂' ∧ l'.Perm l₂' := by
  obtain ⟨l₂', h₂, hp'⟩ := perm_comp_forall₂ hp.symm (mapM_eq_ok_iff.mp h)
  exact ⟨l₂', mapM_eq_ok_iff.mpr h₂, hp'.symm⟩

theorem mapM_eq_ok_of_forall₂ {f : β → Outcome ε γ} {g : α → γ} (h : Forall₂ (fun a b => f b = ok (g a)) l l') :
    l'.mapM f = ok (l.map g) :=
  mapM_eq_ok_iff.mpr (forall₂_map_right_iff.mpr h.flip)

variable {g : α → β}

theorem mapM_eq_ok_map (hf : ∀ a ∈ l, f a = ok (g a)) : l.mapM f = ok (l.map g) :=
  mapM_eq_ok_of_forall₂ (forall₂_same.mpr hf)

theorem mapM_map_eq_ok {f : β → Outcome ε γ} {h : α → γ} (hf : ∀ a ∈ l, f (g a) = ok (h a)) :
    (l.map g).mapM f = ok (l.map h) := by
  rw [mapM_map]
  exact mapM_eq_ok_map hf

theorem eq_map_of_mapM (hf : ∀ a b, f a = ok b → b = g a) (h : l.mapM f = ok l') : l' = l.map g := by
  rw [mapM_eq_ok_iff] at h
  induction h with
  | nil => rfl
  | cons hab _ ih => rw [map_cons, hf _ _ hab, ih]

theorem mapM_deref_eq_ok {f : α → Option β} :
    (l.mapM fun a => (deref (f a) : Outcome ε β)) = ok l' ↔ l.map f = l'.map some := by
  induction l generalizing l' with
  | nil => cases l' <;> simp
  | cons a l ih =>
    cases l' with
    | nil => simp [bind_eq_ok]
    | cons b l' => simp [bind_eq_ok, ih]

theorem exists_mem_of_forall₂ {R : α → β → Prop} (h : Forall₂ R l l') (ha : a ∈ l) : ∃ b ∈ l', R a b := by
  induction h with
  | nil => cases ha
  | cons hab _ ih =>
    rcases mem_cons.mp ha with rfl | ha
    · exact ⟨_, mem_cons_self, hab⟩
    · obtain ⟨b, hb, hR⟩ := ih ha
      exact ⟨b, mem_cons_of_mem _ hb, hR⟩

theorem exists_of_mem_mapM (h : l.mapM f = ok l') (hb : b ∈ l') : ∃ a ∈ l, f a = ok b :=
  exists_mem_of_forall₂ (mapM_eq_ok_iff.mp h).flip hb

theorem exists_mem_of_mapM (h : l.mapM f = ok l') (ha : a ∈ l) : ∃ b ∈ l', f a = ok b :=
  exists_mem_of_forall₂ (mapM_eq_ok_iff.mp h) ha

theorem exists_mapM_eq_ok_iff : (∃ l', l.mapM f = ok l') ↔ ∀ a ∈ l, ∃ b, f a = ok b := by
  constructor
  · rintro ⟨l', h⟩ a ha
    obtain ⟨b, -, hb⟩ := exists_mem_of_mapM h ha
    exact ⟨b, hb⟩
  · exact exists_mapM_eq_ok

end

theorem lookup_of_mapM {K : Type} [BEq K] [LawfulBEq K] {f : K → α → Outcome ε β} {l : List (K × α)}
    {data : List (K × β)} (hnd : (l.map Prod.fst).Nodup)
    (h : (l.mapM fun e => f e.1 e.2 >>= fun b => ok (e.1, b)) = ok data) {k : K} (hm : (k, a) ∈ l) :
    ∃ b, f k a = ok b ∧ data.lookup k = some b := by
  rw [mapM_eq_ok_iff] at h
  induction h with
  | nil => cases hm
  | @cons e p l data hp _ ih =>
    rw [map_cons, nodup_cons] at hnd
    obtain ⟨b, hb, hp⟩ := bind_eq_ok.mp hp
    cases hp
    rcases mem_cons.mp hm with rfl | hm
    · exact ⟨b, hb, by rw [lookup_cons, beq_self_eq_true]⟩
    · have hne : k ≠ e.1 := by
        rintro rfl
        exact hnd.1 (mem_map.mpr ⟨_, hm, rfl⟩)
      obtain ⟨b', hb', hlk⟩ := ih hnd.2 hm
      exact ⟨b', hb', by rw [lookup_cons, beq_eq_false_iff_ne.mpr hne]; exact hlk⟩

theorem all_eq_ok_of_forall₂ {p : β → Outcome ε Bool} {q : α → Bool} {l' : List β}
    (h : Forall₂ (fun a b => p b = ok (q a)) l l') : all p l' = ok (l.all q) := by
  induction h with
  | nil => rfl
  | cons hab _ ih =>
    rw [all, hab, all_cons]
    cases q _ with
    | false => rfl
    | true => exact ih

theorem all_map_eq_ok {p : β → Outcome ε Bool} {g : α → β} {q : α → Bool} (h : ∀ a ∈ l, p (g a) = ok (q a)) :
    all p (l.map g) = ok (l.all q) :=
  all_eq_ok_of_forall₂ (forall₂_map_right_iff.mpr (forall₂_same.mpr h))

/-- A loop that collects a value for each element and hands on a state. -/
def mapAccumM (step : σ → α → Outcome ε (β × σ)) (s : σ) : List α → Outcome ε (List β × σ)
  | [] => ok ([], s)
  | a :: l => do
      let (b, s) ← step s a
      let (bs, r) ← mapAccumM step s l
      return (b :: bs, r)

section

variable {step : σ → α → Outcome ε (β × σ)} {bs : List β}

theorem mapAccumM_cons_eq_ok : mapAccumM step s (a :: l) = ok (bs, s') ↔
    ∃ b s₁ bs', step s a = ok (b, s₁) ∧ mapAccumM step s₁ l = ok (bs', s') ∧ bs = b :: bs' := by
  rw [mapAccumM, bind_eq_ok]
  constructor
  · rintro ⟨⟨b, s₁⟩, ha, h⟩
    obtain ⟨⟨bs', r⟩, hr, h⟩ := bind_eq_ok.mp h
    cases h
    exact ⟨b, s₁, bs', ha, hr, rfl⟩
  · rintro ⟨b, s₁, bs', ha, hr, rfl⟩
    refine ⟨(b, s₁), ha, ?_⟩
    dsimp only
    rw [hr]
    rfl

theorem mapAccumM_skip (h : ∀ s, step s a = ok (b, s)) (s : σ) (l₁ l₂ : List α) :
    mapAccumM step s (l₁ ++ a :: l₂) = (do
      let (bs, r) ← mapAccumM step s (l₁ ++ l₂)
      return (bs.insertIdx l₁.length b, r)) := by
  induction l₁ generalizing s with
  | nil =>
    rw [List.nil_append, mapAccumM, h]
    rfl
  | cons a₁ l₁ ih =>
    rw [List.cons_append, List.cons_append, mapAccumM, mapAccumM]
    simp only [ih, bind_assoc, pure_bind, List.length_cons, List.insertIdx_succ_cons]

theorem mapAccumM_forall {P : α → Prop} {f : α → β} (hstep : ∀ s a b s', step s a = ok (b, s') → b = f a ∧ P a)
    (h : mapAccumM step s l = ok (bs, s')) : bs = l.map f ∧ ∀ a ∈ l, P a := by
  induction l generalizing s bs with
  | nil =>
    cases h
    exact ⟨rfl, by simp⟩
  | cons a l ih =>
    obtain ⟨b, s₁, bs', ha, hr, rfl⟩ := mapAccumM_cons_eq_ok.mp h
    obtain ⟨rfl, hp⟩ := hstep s a b s₁ ha
    obtain ⟨rfl, hall⟩ := ih hr
    exact ⟨rfl, forall_mem_cons.mpr ⟨hp, hall⟩⟩

/-- The loop over the elements as their values change them. -/
theorem mapAccumM_zipWith {step' : σ → γ → Outcome ε (β × σ)} {f : α → β → γ}
    (hstep : ∀ s a b s', step s a = ok (b, s') → step' s (f a b) = ok (b, s')) (h : mapAccumM step s l = ok (bs, s')) :
    l.length = bs.length ∧ mapAccumM step' s (List.zipWith f l bs) = ok (bs, s') := by
  induction l generalizing s bs with
  | nil =>
    cases h
    exact ⟨rfl, rfl⟩
  | cons a l ih =>
    obtain ⟨b, s₁, bs', ha, hr, rfl⟩ := mapAccumM_cons_eq_ok.mp h
    obtain ⟨hlen, hr'⟩ := ih hr
    exact ⟨congrArg Nat.succ hlen, mapAccumM_cons_eq_ok.mpr ⟨b, s₁, bs', hstep s a b s₁ ha, hr', rfl⟩⟩

end

end Outcome

end Drunix.Lib
