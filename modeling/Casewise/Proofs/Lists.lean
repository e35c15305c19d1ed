import Casewise.Data.Bindings
import Mathlib.Data.List.Forall2
import Mathlib.Data.List.Sort
import Mathlib.Data.String.Basic

namespace Casewise

variable {α : Type}

theorem textLe_iff (a b : String) : textLe a b = true ↔ a ≤ b := by
  simp only [textLe, Bool.not_eq_true', decide_eq_false_iff_not, not_lt]

theorem insertBy_eq_orderedInsert (le : α → α → Bool) (a : α) (as : List α) :
    insertBy le a as = as.orderedInsert (fun x y => le x y = true) a := by
  induction as with
  | nil => rfl
  | cons b as ih => simp only [insertBy, List.orderedInsert_cons, ih]

theorem sortBy_eq_insertionSort (le : α → α → Bool) (as : List α) :
    sortBy le as = as.insertionSort fun x y => le x y = true := by
  induction as with
  | nil => rfl
  | cons a as ih =>
    have hs : sortBy le (a :: as) = insertBy le a (sortBy le as) := rfl
    rw [hs, ih, insertBy_eq_orderedInsert, List.insertionSort_cons]

theorem sortBy_perm (le : α → α → Bool) (as : List α) : (sortBy le as).Perm as := by
  rw [sortBy_eq_insertionSort]
  exact List.perm_insertionSort _ as

@[simp] theorem mem_sortBy {le : α → α → Bool} {as : List α} {a : α} : a ∈ sortBy le as ↔ a ∈ as :=
  (sortBy_perm le as).mem_iff

theorem pairwise_sortBy (key : α → String) (as : List α) :
    (sortBy (fun a b => textLe (key a) (key b)) as).Pairwise fun a b => key a ≤ key b := by
  rw [sortBy_eq_insertionSort]
  have total : Std.Total (fun a b => textLe (key a) (key b) = true) :=
    ⟨fun a b => by simpa only [textLe_iff] using le_total (key a) (key b)⟩
  have trans : IsTrans α (fun a b => textLe (key a) (key b) = true) :=
    ⟨fun a b c => by simpa only [textLe_iff] using le_trans⟩
  exact (List.pairwise_insertionSort _ as).imp fun h => (textLe_iff _ _).mp h

theorem sortBy_strict {key : α → String} {as : List α} (h : (as.map key).Nodup) :
    ((sortBy (fun a b => textLe (key a) (key b)) as).map key).Pairwise (· < ·) := by
  have hn : ((sortBy (fun a b => textLe (key a) (key b)) as).map key).Nodup :=
    ((sortBy_perm _ as).map key).nodup_iff.mpr h
  have hs := (pairwise_sortBy key as).map key fun _ _ hab => hab
  exact (hs.and hn).imp fun ⟨hle, hne⟩ => lt_of_le_of_ne hle hne

theorem sortBy_cons (le : α → α → Bool) (a : α) (as : List α) : sortBy le (a :: as) = insertBy le a (sortBy le as) := rfl

theorem map_insertBy {β : Type} {le : α → α → Bool} {le' : β → β → Bool} (f : α → β) (a : α) (as : List α)
    (h : ∀ a b, le' (f a) (f b) = le a b) : (insertBy le a as).map f = insertBy le' (f a) (as.map f) := by
  induction as with
  | nil => rfl
  | cons b as ih =>
    simp only [insertBy, List.map_cons, h]
    split
    · rfl
    · rw [List.map_cons, ih]

theorem map_sortBy {β : Type} {le : α → α → Bool} {le' : β → β → Bool} (f : α → β) (as : List α)
    (h : ∀ a b, le' (f a) (f b) = le a b) : (sortBy le as).map f = sortBy le' (as.map f) := by
  induction as with
  | nil => rfl
  | cons a as ih => rw [sortBy_cons, map_insertBy f _ _ h, ih, List.map_cons, sortBy_cons]

theorem pairwise_sortBy_stable {key : α → String} {R : α → α → Prop} {as : List α}
    (h : as.Pairwise fun a b => key a = key b → R a b) :
    (sortBy (fun a b => textLe (key a) (key b)) as).Pairwise fun a b => key a ≤ key b ∧ (key a = key b → R a b) := by
  induction h with
  | nil => exact .nil
  | @cons a as ha _ ih =>
    have hmem : ∀ b ∈ sortBy (fun a b => textLe (key a) (key b)) as, key a = key b → R a b :=
      fun b hb => ha b (mem_sortBy.mp hb)
    rw [sortBy_cons]
    generalize sortBy (fun a b => textLe (key a) (key b)) as = bs at ih hmem
    induction ih with
    | nil => simp [insertBy]
    | @cons b bs hb hbs ih =>
      rw [insertBy]
      split
      · next hle =>
        have hab := (textLe_iff _ _).mp hle
        refine List.pairwise_cons.mpr ⟨fun c hc => ⟨?_, hmem c hc⟩, .cons hb hbs⟩
        rcases List.mem_cons.mp hc with rfl | hc
        · exact hab
        · exact hab.trans (hb c hc).1
      · next hle =>
        have hba := lt_of_not_ge fun h => hle ((textLe_iff _ _).mpr h)
        refine List.pairwise_cons.mpr ⟨fun c hc => ?_, ih fun c hc => hmem c (List.mem_cons_of_mem _ hc)⟩
        rw [insertBy_eq_orderedInsert, List.mem_orderedInsert] at hc
        rcases hc with rfl | hc
        · exact ⟨hba.le, fun he => absurd he hba.ne⟩
        · exact hb c hc

theorem eq_of_increasing {xs ys : List String} (hx : xs.Pairwise (· < ·)) (hy : ys.Pairwise (· < ·))
    (h : ∀ x, x ∈ xs ↔ x ∈ ys) : xs = ys := by
  have hp : xs.Perm ys :=
    (List.perm_ext_iff_of_nodup (hx.imp ne_of_lt) (hy.imp ne_of_lt)).mpr h
  exact hp.eq_of_pairwise (fun a b _ _ hab hba => absurd hba (lt_asymm hab)) hx hy

theorem distinctBy_cons (same : α → α → Bool) (a : α) (as : List α) :
    distinctBy same (a :: as) = a :: (distinctBy same as).filter fun b => !same a b := rfl

theorem mem_of_mem_distinctBy {same : α → α → Bool} {as : List α} {a : α} (h : a ∈ distinctBy same as) :
    a ∈ as := by
  induction as with
  | nil => exact h
  | cons b as ih =>
    rcases List.mem_cons.mp h with rfl | h
    · simp
    · exact List.mem_cons_of_mem _ (ih (List.mem_filter.mp h).1)

theorem pairwise_distinctBy (same : α → α → Bool) (as : List α) :
    (distinctBy same as).Pairwise fun a b => same a b = false := by
  induction as with
  | nil => exact List.Pairwise.nil
  | cons a as ih =>
    refine List.pairwise_cons.mpr ⟨fun b hb => ?_, ih.filter _⟩
    simpa using (List.mem_filter.mp hb).2

theorem exists_mem_distinctBy (same : α → α → Bool)
    (trans : ∀ {a b c}, same a b = true → same b c = true → same a c = true) {as : List α} {a : α}
    (ha : a ∈ as) (self : same a a = true) : ∃ b ∈ distinctBy same as, same b a = true := by
  induction as with
  | nil => simp at ha
  | cons b as ih =>
    by_cases hb : same b a = true
    · exact ⟨b, by simp [distinctBy_cons], hb⟩
    · rcases List.mem_cons.mp ha with rfl | ha
      · exact absurd self hb
      · obtain ⟨c, hc, hca⟩ := ih ha
        have hbc : same b c = false := by
          by_contra h
          exact hb (trans (by simpa using h) hca)
        exact ⟨c, by simp [distinctBy_cons, hc, hbc], hca⟩

theorem mem_distinctBy_of_apart {same : α → α → Bool} {as : List α} {a : α} (ha : a ∈ as)
    (apart : ∀ b, same b a = false) : a ∈ distinctBy same as := by
  induction as with
  | nil => exact ha
  | cons b as ih =>
    rcases List.mem_cons.mp ha with rfl | ha
    · simp [distinctBy_cons]
    · simp [distinctBy_cons, ih ha, apart b]

theorem distinctBy_of_pairwise {same : α → α → Bool} {as : List α} (h : as.Pairwise fun a b => same a b = false) :
    distinctBy same as = as := by
  induction h with
  | nil => rfl
  | cons ha _ ih =>
    rw [distinctBy_cons, ih, List.filter_eq_self.mpr]
    intro b hb
    rw [ha b hb, Bool.not_false]

theorem distinctBy_append (same : α → α → Bool) (as bs : List α) :
    distinctBy same (as ++ bs) = distinctBy same as ++ (distinctBy same bs).filter fun b => !as.any (same · b) := by
  induction as with
  | nil => exact (List.filter_true _).symm
  | cons a as ih =>
    simp only [List.cons_append, distinctBy_cons, ih, List.filter_append, List.filter_filter, List.any_cons, Bool.not_or]

theorem distinctBy_append_distinctBy (same : α → α → Bool) (as bs : List α) :
    distinctBy same (as ++ distinctBy same bs) = distinctBy same (as ++ bs) := by
  rw [distinctBy_append, distinctBy_append, distinctBy_of_pairwise (pairwise_distinctBy same bs)]

theorem filter_distinctBy {same : α → α → Bool} {p : α → Bool} (hp : ∀ a b, same a b = true → p a = p b)
    (as : List α) : (distinctBy same as).filter p = distinctBy same (as.filter p) := by
  induction as with
  | nil => rfl
  | cons a as ih =>
    simp only [distinctBy_cons, List.filter_cons]
    split
    · rw [distinctBy_cons, ← ih, List.filter_filter, List.filter_filter]
      simp only [Bool.and_comm]
    · next ha =>
      -- What equals a dropped item is dropped as well.
      rw [← ih, List.filter_filter]
      refine List.filter_congr fun b _ => ?_
      cases hab : same a b with
      | false => simp
      | true => simpa using (hp a b hab).symm.trans (by simpa using ha)

theorem filter_distinctBy_append {same : α → α → Bool} {p q : α → Bool}
    (hp : ∀ a b, same a b = true → p a = p b) (hpq : ∀ a, p a = true → q a = true) (as bs : List α) :
    (distinctBy same (as ++ (distinctBy same bs).filter q)).filter p = (distinctBy same (as ++ bs)).filter p := by
  have hdrop : ((distinctBy same bs).filter q).filter p = distinctBy same (bs.filter p) := by
    rw [List.filter_filter, ← filter_distinctBy hp]
    refine List.filter_congr fun b _ => ?_
    rw [Bool.and_eq_left_iff_imp]
    exact hpq b
  calc (distinctBy same (as ++ (distinctBy same bs).filter q)).filter p
      = distinctBy same (as.filter p ++ distinctBy same (bs.filter p)) := by
        rw [filter_distinctBy hp, List.filter_append, hdrop]
    _ = (distinctBy same (as ++ bs)).filter p := by
        rw [distinctBy_append_distinctBy, ← List.filter_append, filter_distinctBy hp]

theorem perm_map_distinctBy {β : Type} (same : α → α → Bool) {f : α → β}
    (symm : ∀ {a b}, same a b = true → same b a = true)
    (trans : ∀ {a b c}, same a b = true → same b c = true → same a c = true) {as bs : List α} (h : as.Perm bs)
    (hf : ∀ a ∈ as, ∀ b ∈ as, same a b = true → f a = f b) :
    ((distinctBy same as).map f).Perm ((distinctBy same bs).map f) := by
  have hcongr (a : α) {b c : α} (hbc : same b c = true) : same a b = same a c :=
    Bool.eq_iff_iff.mpr ⟨fun hab => trans hab hbc, fun hac => trans hac (symm hbc)⟩
  -- what the first item leaves of the others is a filter, so the induction has to run under filters
  suffices hp : ∀ p : α → Bool, (∀ a b, same a b = true → p a = p b) →
      (((distinctBy same as).filter p).map f).Perm (((distinctBy same bs).filter p).map f) by
    simpa using hp (fun _ => true) fun _ _ _ => rfl
  induction h with
  | nil => exact fun _ _ => .refl _
  | @cons a as bs _ ih =>
    intro p hp
    have hrest := ih (fun b hb c hc => hf b (List.mem_cons_of_mem _ hb) c (List.mem_cons_of_mem _ hc))
      (fun b => p b && !same a b) fun b c hbc => by rw [hp b c hbc, hcongr a hbc]
    simp only [distinctBy_cons, List.filter_cons, List.filter_filter]
    split
    · exact hrest.cons _
    · exact hrest
  | swap a b as =>
    intro p hp
    have hcomm : ∀ c, (p c && (!same b c && !same a c)) = (p c && (!same a c && !same b c)) := fun c => by
      rw [Bool.and_comm (!same b c)]
    cases hab : same a b with
    | true =>
      have hba := symm hab
      simp only [distinctBy_cons, List.filter_cons, List.filter_filter, hab, hba, Bool.not_true, Bool.false_eq_true, if_false,
        hp a b hab, hcomm]
      split
      · rw [List.map_cons, List.map_cons, hf b (by simp) a (by simp) hba]
      · exact .refl _
    | false =>
      have hba : same b a = false := Bool.eq_false_iff.mpr fun h => by simp [symm h] at hab
      simp only [distinctBy_cons, List.filter_cons, List.filter_filter, hab, hba, Bool.not_false, if_true, hcomm]
      split <;> split <;> first | exact .refl _ | exact .swap _ _ _
  | trans h₁ _ ih₁ ih₂ =>
    intro p hp
    exact (ih₁ hf p hp).trans (ih₂ (fun a ha b hb => hf a (h₁.mem_iff.mpr ha) b (h₁.mem_iff.mpr hb)) p hp)

theorem mem_distinctTexts {texts : List String} {t : String} : t ∈ distinctTexts texts ↔ t ∈ texts := by
  constructor
  · exact mem_of_mem_distinctBy
  · intro h
    have trans {a b c : String} (hab : (a == b) = true) (hbc : (b == c) = true) : (a == c) = true := by
      simp_all
    obtain ⟨u, hu, hut⟩ := exists_mem_distinctBy (fun a b => a == b) trans h (beq_self_eq_true t)
    rw [← eq_of_beq hut]
    exact hu

theorem nodup_distinctTexts (texts : List String) : (distinctTexts texts).Nodup :=
  (pairwise_distinctBy _ texts).imp fun h => by simpa using h

theorem mem_sortTexts_distinct {texts : List String} {t : String} :
    t ∈ sortTexts (distinctTexts texts) ↔ t ∈ texts := by
  rw [sortTexts, mem_sortBy, mem_distinctTexts]

theorem increasing_sortTexts_distinct (texts : List String) :
    (sortTexts (distinctTexts texts)).Pairwise (· < ·) := by
  have h : ((distinctTexts texts).map id).Nodup := by simpa using nodup_distinctTexts texts
  simpa [sortTexts] using sortBy_strict h

theorem forall₂_imp_mem {β : Type} {R S : α → β → Prop} {xs : List α} {ys : List β}
    (h : List.Forall₂ R xs ys) (hs : ∀ x ∈ xs, ∀ y, R x y → S x y) : List.Forall₂ S xs ys := by
  have hm : List.Forall₂ (fun x y => x ∈ xs ∧ R x y) xs ys :=
    (List.forall₂_and_left xs ys).mpr ⟨fun _ hx => hx, h⟩
  exact hm.imp fun x y hxy => hs x hxy.1 y hxy.2

theorem forall₂_swap {β : Type} {R : α → β → Prop} {S : β → α → Prop} {xs : List α} {ys : List β}
    (h : List.Forall₂ R xs ys) (hs : ∀ x ∈ xs, ∀ y, R x y → S y x) : List.Forall₂ S ys xs :=
  (forall₂_imp_mem h hs).flip

theorem forall₂_partner {β : Type} {R : α → β → Prop} {xs : List α} {ys : List β} (h : List.Forall₂ R xs ys)
    {y : β} (hy : y ∈ ys) : ∃ x ∈ xs, R x y := by
  induction h with
  | nil => simp at hy
  | cons hxy _ ih =>
    rcases List.mem_cons.mp hy with rfl | hy
    · exact ⟨_, by simp, hxy⟩
    · obtain ⟨x, hx, hr⟩ := ih hy
      exact ⟨x, List.mem_cons_of_mem _ hx, hr⟩

theorem forall₂_comp {β γ : Type} {R : α → β → Prop} {S : β → γ → Prop} {T : α → γ → Prop} {xs : List α}
    {ys : List β} {zs : List γ} (h : List.Forall₂ R xs ys) (h' : List.Forall₂ S ys zs)
    (ht : ∀ x ∈ xs, ∀ y z, R x y → S y z → T x z) : List.Forall₂ T xs zs := by
  induction h generalizing zs with
  | nil => cases h'; exact .nil
  | cons hxy _ ih =>
    cases h' with
    | cons hyz h' => exact .cons (ht _ (by simp) _ _ hxy hyz) (ih h' fun x hx => ht x (List.mem_cons_of_mem _ hx))

theorem forall₂_of_common {β γ : Type} {R : α → β → Prop} {S : α → γ → Prop} {T : β → γ → Prop} {xs : List α}
    {ys : List β} {zs : List γ} (h : List.Forall₂ R xs ys) (h' : List.Forall₂ S xs zs)
    (ht : ∀ x ∈ xs, ∀ y z, R x y → S x z → T y z) : List.Forall₂ T ys zs := by
  have hm := forall₂_swap h (S := fun y x => R x y ∧ x ∈ xs) fun x hx y hr => ⟨hr, hx⟩
  exact forall₂_comp hm h' fun y _ x z hr hs => ht x hr.2 y z hr.1 hs

theorem forall₂_flatten {β : Type} {R : α → β → Prop} {xss : List (List α)} {ys : List β}
    (h : List.Forall₂ R xss.flatten ys) : ∃ yss : List (List β), ys = yss.flatten ∧
      List.Forall₂ (List.Forall₂ R) xss yss := by
  induction xss generalizing ys with
  | nil =>
    cases h
    exact ⟨[], rfl, .nil⟩
  | cons xs xss ih =>
    have hfront : List.Forall₂ R xs (ys.take xs.length) := by simpa using List.forall₂_take xs.length h
    have hback : List.Forall₂ R xss.flatten (ys.drop xs.length) := by simpa using List.forall₂_drop xs.length h
    obtain ⟨yss, hyss, hrest⟩ := ih hback
    exact ⟨ys.take xs.length :: yss, by rw [List.flatten_cons, ← hyss, List.take_append_drop], .cons hfront hrest⟩

theorem bind_eq_ok {ε β : Type} {x : Except ε α} {f : α → Except ε β} {b : β} :
    (x >>= f) = .ok b ↔ ∃ a, x = .ok a ∧ f a = .ok b := by
  cases x with
  | error e => exact iff_of_false nofun (by simp)
  | ok a => exact ⟨fun h => ⟨a, rfl, h⟩, fun ⟨_, he, h⟩ => Except.ok.inj he ▸ h⟩

theorem bind_eq_error {ε β : Type} {x : Except ε α} {f : α → Except ε β} {e : ε} :
    (x >>= f) = .error e ↔ x = .error e ∨ ∃ a, x = .ok a ∧ f a = .error e := by
  cases x with
  | error e' =>
    show (Except.error e' : Except ε β) = .error e ↔ _
    simp
  | ok a =>
    show f a = .error e ↔ _
    simp

theorem pure_eq_ok {ε : Type} {a b : α} : (pure a : Except ε α) = .ok b ↔ a = b :=
  ⟨Except.ok.inj, congrArg _⟩

theorem mapM_eq_ok {ε β : Type} {f : α → Except ε β} {as : List α} {bs : List β} :
    as.mapM f = .ok bs ↔ List.Forall₂ (fun a b => f a = .ok b) as bs := by
  constructor
  · intro h
    induction as generalizing bs with
    | nil =>
      obtain rfl := Except.ok.inj h
      exact .nil
    | cons a as ih =>
      rw [List.mapM_cons] at h
      obtain ⟨b, hb, hrest⟩ := bind_eq_ok.mp h
      obtain ⟨bs', hbs, he⟩ := bind_eq_ok.mp hrest
      obtain rfl := pure_eq_ok.mp he
      exact .cons hb (ih hbs)
  · intro h
    induction h with
    | nil => rfl
    | cons hb _ ih =>
      rw [List.mapM_cons, hb, ih]
      rfl

theorem exists_of_mapM_error {ε β : Type} {f : α → Except ε β} {as : List α} {e : ε} (h : as.mapM f = .error e) :
    ∃ a ∈ as, f a = .error e := by
  induction as with
  | nil => cases h
  | cons a as ih =>
    rw [List.mapM_cons] at h
    obtain ha | ⟨b, _, hrest⟩ := bind_eq_error.mp h
    · exact ⟨a, by simp, ha⟩
    · obtain has | ⟨bs, _, hpure⟩ := bind_eq_error.mp hrest
      · obtain ⟨a', ha', he⟩ := ih has
        exact ⟨a', by simp [ha'], he⟩
      · cases hpure

end Casewise
