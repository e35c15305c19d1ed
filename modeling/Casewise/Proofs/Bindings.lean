import Casewise.Proofs.Lists
import Mathlib.Data.List.Induction

namespace Casewise.Bindings

variable {α β : Type}

theorem mem_of_get? {name : String} {a : α} {bs : Bindings α} (h : bs.get? name = some a) : (name, a) ∈ bs := by
  induction bs with
  | nil => simp at h
  | cons b bs ih =>
    by_cases hb : b.1 = name
    · simp only [get?_cons, hb, if_true, Option.some.injEq] at h
      simp [← h, ← hb]
    · simp only [get?_cons, hb, if_false] at h
      exact List.mem_cons_of_mem _ (ih h)

theorem get?_eq_none_iff {name : String} {bs : Bindings α} : bs.get? name = none ↔ name ∉ bs.names := by
  induction bs with
  | nil => simp [names]
  | cons b bs ih =>
    simp only [names] at ih
    by_cases hb : b.1 = name
    · simp [get?_cons, names, hb]
    · simp [get?_cons, names, hb, ih, Ne.symm hb]

theorem isSome_get? {name : String} {bs : Bindings α} : (bs.get? name).isSome = true ↔ name ∈ bs.names := by
  rw [Option.isSome_iff_ne_none, ne_eq, get?_eq_none_iff, not_not]

theorem has_iff {name : String} {bs : Bindings α} : bs.has name = true ↔ name ∈ bs.names := isSome_get?

theorem has_congr {as bs : Bindings α} (h : as.names = bs.names) (name : String) : as.has name = bs.has name := by
  rw [Bool.eq_iff_iff, has_iff, has_iff, h]

theorem get?_of_mem {name : String} {a : α} {bs : Bindings α} (hn : bs.names.Nodup) (h : (name, a) ∈ bs) :
    bs.get? name = some a := by
  induction bs with
  | nil => simp at h
  | cons b bs ih =>
    obtain ⟨hb, hn⟩ := List.nodup_cons.mp hn
    rcases List.mem_cons.mp h with rfl | h
    · simp [get?_cons]
    · have hne : b.1 ≠ name := by
        rintro rfl
        exact hb (List.mem_map.mpr ⟨_, h, rfl⟩)
      simpa [get?_cons, hne] using ih hn h

theorem get?_eq_some_iff_mem {name : String} {a : α} {bs : Bindings α} (h : bs.names.Nodup) :
    bs.get? name = some a ↔ (name, a) ∈ bs :=
  ⟨mem_of_get?, get?_of_mem h⟩

theorem get?_eq_some_iff {bs : Bindings α} {name : String} {a : α} :
    bs.get? name = some a ↔ ∃ before rest, bs = before ++ (name, a) :: rest ∧ name ∉ before.map (·.1) := by
  induction bs with
  | nil => simp
  | cons b bs ih =>
    by_cases hb : b.1 = name
    · simp only [get?_cons, hb, if_true, Option.some.injEq]
      constructor
      · rintro rfl
        exact ⟨[], bs, by simp [← hb], by simp⟩
      · rintro ⟨before, rest, he, hn⟩
        cases before with
        | nil => rw [(List.cons.inj he).1]
        | cons c before => exact absurd ((List.cons.inj he).1 ▸ hb).symm (fun h => hn (by simp [h]))
    · simp only [get?_cons, hb, if_false, ih]
      constructor
      · rintro ⟨before, rest, rfl, hn⟩
        exact ⟨b :: before, rest, rfl, by simpa [Ne.symm hb] using hn⟩
      · rintro ⟨before, rest, he, hn⟩
        cases before with
        | nil => exact absurd (congrArg Prod.fst (List.cons.inj he).1) hb
        | cons c before =>
          obtain ⟨rfl, rfl⟩ := List.cons.inj he
          exact ⟨before, rest, rfl, fun h => hn (List.mem_cons_of_mem _ h)⟩

theorem get?_map (f : String → α) (names : List String) (name : String) :
    get? name (names.map fun n => (n, f n)) = if name ∈ names then some (f name) else none := by
  induction names with
  | nil => rfl
  | cons n names ih =>
    by_cases h : n = name
    · simp [get?_cons, h]
    · have h' : name ≠ n := fun he => h he.symm
      simp [get?_cons, h, h', ih]

theorem get?_mapValues (f : α → β) (name : String) (bs : Bindings α) :
    get? name (bs.map fun b => (b.1, f b.2)) = (bs.get? name).map f := by
  induction bs with
  | nil => rfl
  | cons b bs ih => by_cases h : b.1 = name <;> simp [get?_cons, h, ih]

theorem get?_append (name : String) (as bs : Bindings α) : get? name (as ++ bs) = (as.get? name).or (bs.get? name) := by
  induction as with
  | nil => rfl
  | cons a as ih =>
    by_cases h : a.1 = name
    · simp [get?_cons, h]
    · simpa [get?_cons, h] using ih

theorem get?_filter (q : String → Bool) (name : String) (bs : Bindings α) :
    get? name (bs.filter fun b => q b.1) = if q name then bs.get? name else none := by
  induction bs with
  | nil => simp
  | cons b bs ih =>
    by_cases hb : b.1 = name
    · subst hb
      cases hq : q b.1 <;> simp [get?_cons, hq, ih]
    · cases hq : q b.1 <;> simp [get?_cons, hq, hb, ih]

theorem forall₂_iff {R : α → β → Prop} {fs : Bindings α} {gs : Bindings β} :
    List.Forall₂ (fun f g => f.1 = g.1 ∧ R f.2 g.2) fs gs ↔
      fs.names = gs.names ∧ List.Forall₂ R (fs.map (·.2)) (gs.map (·.2)) := by
  induction fs generalizing gs with
  | nil => cases gs <;> simp [names]
  | cons f fs ih =>
    cases gs with
    | nil => simp
    | cons g gs =>
      simp only [List.forall₂_cons, ih, names, List.map_cons, List.cons.injEq]
      tauto

theorem rel_get? {R : α → β → Prop} {as : Bindings α} {bs : Bindings β}
    (h : List.Forall₂ (fun a b => a.1 = b.1 ∧ R a.2 b.2) as bs) (name : String) :
    Option.Rel R (as.get? name) (bs.get? name) := by
  induction h with
  | nil => exact .none
  | @cons a b as bs hab _ ih =>
    obtain ⟨n, x⟩ := a
    obtain ⟨_, y⟩ := b
    obtain ⟨rfl, hr⟩ := hab
    simp only [get?_cons]
    split
    · exact .some hr
    · exact ih

theorem names_zip (ns : List String) (as : List α) : names (ns.zip as) = ns.take as.length := by
  induction ns generalizing as with
  | nil => simp [names]
  | cons n ns ih =>
    cases as with
    | nil => rfl
    | cons a as => exact congrArg (n :: ·) (ih as)

theorem nodup_names_filter {q : String × α → Bool} {bs : Bindings α} (h : bs.names.Nodup) :
    (names (bs.filter q)).Nodup := h.sublist (List.filter_sublist.map _)

theorem names_set (name : String) (a : α) (bs : Bindings α) :
    (bs.set name a).names = if name ∈ bs.names then bs.names else bs.names ++ [name] := by
  induction bs with
  | nil => simp [set, names]
  | cons b bs ih =>
    by_cases h : b.1 = name
    · simp [set_cons, names, h]
    · have h' : ¬ name = b.1 := fun e => h e.symm
      by_cases hm : name ∈ bs.map (·.1) <;> simp_all [set_cons, names]

theorem nodup_names_set {name : String} {a : α} {bs : Bindings α} (h : bs.names.Nodup) :
    (bs.set name a).names.Nodup := by
  rw [names_set]
  split
  · exact h
  · next hn => exact List.nodup_append.mpr ⟨h, by simp, by simpa using fun x hx => ne_of_mem_of_not_mem hx hn⟩

theorem get?_set (name other : String) (a : α) (bs : Bindings α) :
    (bs.set other a).get? name = if other = name then some a else bs.get? name := by
  split
  · next h => rw [h, get?_set_self]
  · next h => exact get?_set_of_ne h a bs

theorem mem_names_set {name other : String} {a : α} {bs : Bindings α} :
    name ∈ (bs.set other a).names ↔ name ∈ bs.names ∨ name = other := by
  rw [← isSome_get?, ← isSome_get?, get?_set]
  by_cases h : other = name
  · simp [h]
  · simp [h, Ne.symm h]

theorem mem_set {name : String} {a : α} {bs : Bindings α} {b : String × α} (h : b ∈ bs.set name a) :
    b.2 = a ∨ b ∈ bs := by
  induction bs with
  | nil => simp_all [set]
  | cons c bs ih =>
    by_cases hc : c.1 = name
    · simp only [set_cons, hc, if_true, List.mem_cons] at h
      rcases h with rfl | h
      · exact .inl rfl
      · exact .inr (List.mem_cons_of_mem _ h)
    · simp only [set_cons, hc, if_false, List.mem_cons] at h
      rcases h with rfl | h
      · exact .inr (by simp)
      · exact (ih h).imp_right (List.mem_cons_of_mem _)

theorem forall_mem_set {p : α → Prop} {bs : Bindings α} {a : α} (name : String) (hb : ∀ b ∈ bs, p b.2) (ha : p a) :
    ∀ b ∈ bs.set name a, p b.2 := by
  intro b hm
  rcases mem_set hm with hm | hm
  · exact hm ▸ ha
  · exact hb b hm

theorem set_of_new {name : String} {bs : Bindings α} (h : name ∉ bs.names) (a : α) :
    bs.set name a = bs ++ [(name, a)] := by
  induction bs with
  | nil => rfl
  | cons b bs ih =>
    rw [set_cons, if_neg (List.ne_of_not_mem_cons h).symm, ih (List.not_mem_of_not_mem_cons h)]
    rfl

theorem forall_mem_erase {p : α → Prop} {bs : Bindings α} (name : String) (hb : ∀ b ∈ bs, p b.2) :
    ∀ b ∈ bs.erase name, p b.2 := by
  induction bs with
  | nil => exact hb
  | cons b bs ih =>
    obtain ⟨hb, hbs⟩ := List.forall_mem_cons.mp hb
    rw [erase]
    split
    · exact hbs
    · exact List.forall_mem_cons.mpr ⟨hb, ih hbs⟩

theorem nodup_names_update {bs : Bindings α} (new : Bindings α) (h : bs.names.Nodup) :
    (bs.update new).names.Nodup := by
  induction new generalizing bs with
  | nil => exact h
  | cons b new ih => exact ih (nodup_names_set h)

theorem get?_update {name : String} {bs new : Bindings α} (h : new.names.Nodup) :
    (bs.update new).get? name = (new.get? name).or (bs.get? name) := by
  induction new generalizing bs with
  | nil => rfl
  | cons b new ih =>
    obtain ⟨hb, hnew⟩ := List.nodup_cons.mp h
    rw [update, List.foldl_cons, ← update, ih hnew]
    by_cases hname : b.1 = name
    · have hn : get? name new = none := get?_eq_none_iff.mpr (hname ▸ hb)
      rw [hn, hname, get?_set_self]
      simp [get?_cons, hname]
    · rw [get?_set_of_ne hname]
      simp [get?_cons, hname]

theorem update_of_nodup {bs new : Bindings α} (h : (bs ++ new).names.Nodup) :
    bs.update new = bs ++ new := by
  induction new generalizing bs with
  | nil => simp [update]
  | cons b new ih =>
    have hb : b.1 ∉ bs.names := by
      simp only [names, List.map_append, List.map_cons, List.nodup_append] at h
      exact fun hm => h.2.2 _ hm _ (by simp) rfl
    have hset : bs.set b.1 b.2 = bs ++ [b] := set_of_new hb b.2
    rw [update, List.foldl_cons, ← update, hset, ih (by simpa using h)]
    simp

theorem forall_mem_update {p : α → Prop} {bs : Bindings α} (new : Bindings α) (hb : ∀ b ∈ bs, p b.2)
    (hn : ∀ b ∈ new, p b.2) : ∀ b ∈ bs.update new, p b.2 := by
  induction new generalizing bs with
  | nil => exact hb
  | cons c new ih =>
    obtain ⟨hc, hnew⟩ := List.forall_mem_cons.mp hn
    exact ih (forall_mem_set c.1 hb hc) hnew

theorem ofPairs_append (pairs : List (String × α)) (b : String × α) :
    ofPairs (pairs ++ [b]) = (ofPairs pairs).set b.1 b.2 := by
  simp [ofPairs, update]

theorem ofPairs_of_nodup {pairs : List (String × α)} (h : (names pairs).Nodup) : ofPairs pairs = pairs := by
  have hupdate : update [] pairs = [] ++ pairs := update_of_nodup h
  exact hupdate

theorem names_ofPairs (pairs : List (String × α)) : (ofPairs pairs).names = distinctTexts (pairs.map (·.1)) := by
  induction pairs using List.reverseRecOn with
  | nil => rfl
  | append_singleton pairs b ih =>
    have hsnoc : distinctTexts ((pairs ++ [b]).map (·.1)) =
        distinctTexts (pairs.map (·.1)) ++ [b.1].filter fun n => !(pairs.map (·.1)).any (· == n) := by
      rw [List.map_append, distinctTexts, distinctBy_append]
      rfl
    rw [ofPairs_append, names_set, ih, hsnoc]
    by_cases h : b.1 ∈ pairs.map (·.1)
    · rw [if_pos (mem_distinctTexts.mpr h)]
      simpa using h
    · have hnone : (pairs.map (·.1)).any (· == b.1) = false := by
        simpa only [List.any_beq', List.contains_eq_mem, decide_eq_false_iff_not] using h
      rw [if_neg (mt mem_distinctTexts.mp h), List.filter_cons, hnone]
      rfl

theorem nodup_names_ofPairs (pairs : List (String × α)) : (ofPairs pairs).names.Nodup :=
  nodup_names_update pairs (by simp [names])

theorem get?_ofPairs (pairs : List (String × α)) (name : String) :
    (ofPairs pairs).get? name = get? name pairs.reverse := by
  induction pairs using List.reverseRecOn with
  | nil => rfl
  | append_singleton pairs b ih =>
    rw [ofPairs_append, List.reverse_concat, get?_cons]
    split
    · next h => rw [h, get?_set_self]
    · next h => rw [get?_set_of_ne h, ih]

theorem get?_ofPairs_eq_some {pairs : List (String × α)} {name : String} {a : α} :
    (ofPairs pairs).get? name = some a ↔
      ∃ before later, pairs = before ++ (name, a) :: later ∧ name ∉ later.map (·.1) := by
  rw [get?_ofPairs, get?_eq_some_iff]
  constructor
  · rintro ⟨later, before, he, hn⟩
    exact ⟨before.reverse, later.reverse, by simpa using congrArg List.reverse he, by simpa using hn⟩
  · rintro ⟨before, later, rfl, hn⟩
    exact ⟨later.reverse, before.reverse, by simp, by simpa using hn⟩

theorem forall_mem_ofPairs {p : α → Prop} {pairs : List (String × α)} (h : ∀ b ∈ pairs, p b.2) :
    ∀ b ∈ ofPairs pairs, p b.2 := forall_mem_update pairs (by simp) h

end Casewise.Bindings
