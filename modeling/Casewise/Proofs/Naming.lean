import Casewise.Proofs.MergeWidening

namespace Casewise

theorem paren_not_mem_digits (n : Nat) : '(' ∉ Nat.toDigits 10 n := by
  intro h
  have hdigit := Nat.isDigit_of_mem_toDigits (by decide) (by decide) h
  simp [Char.isDigit] at hdigit

theorem paren_not_mem_integer {n : Int} {s : String} (h : integerText? n = some s) : '(' ∉ s.toList := by
  simp only [integerText?, Option.ite_none_right_eq_some, Option.some.injEq] at h
  obtain ⟨_, rfl⟩ := h
  cases n with
  | ofNat m => simpa [toString, Int.repr] using paren_not_mem_digits m
  | negSucc m => simpa [toString, Int.repr] using paren_not_mem_digits (m + 1)

theorem paren_not_mem_exponent (e : Int) : '(' ∉ (Decimal.exponentText e).toList := by
  simp only [Decimal.exponentText, String.toList_append, List.mem_append]
  split <;> split <;> simp [paren_not_mem_digits]

theorem paren_not_mem_display (d : Decimal) : '(' ∉ d.display.toList := by
  have hdigits : '(' ∉ d.text.toList := by simpa [Decimal.text] using paren_not_mem_digits d.digits
  have htake (n : Nat) : '(' ∉ d.text.toList.take n := fun h => hdigits (List.mem_of_mem_take h)
  have hdrop (n : Nat) : '(' ∉ d.text.toList.drop n := fun h => hdigits (List.mem_of_mem_drop h)
  have hrest : '(' ∉ d.text.toList.tail := fun h => hdigits (List.mem_of_mem_tail h)
  simp only [Decimal.display]
  split
  · simp only [Decimal.scientific]
    split <;> simp [htake, hrest, paren_not_mem_exponent]
  · simp only [Decimal.positional]
    split
    · simp [Decimal.zeros, hdigits]
    · split <;> simp [Decimal.zeros, htake, hdrop, hdigits]

theorem paren_not_mem_float (x : Float) : '(' ∉ (floatText ⟨"Infinity", "NaN"⟩ x).toList := by
  simp only [floatText]
  split
  · decide
  · split <;> decide
  · simp only [String.toList_append, List.mem_append]
    split <;> split <;> simp [paren_not_mem_display]

namespace Ty

variable {t u : Ty} {ts us : List Ty}

theorem starts_of_not_mem {s : String} {c : Char} (h : c ∉ s.toList) : s.toList.head? ≠ some c :=
  fun hs => h (List.mem_of_mem_head? hs)

theorem starts_literal {s : Scalar} {n : String} (h : s.text? = some n) : n.toList.head? ≠ some '(' := by
  cases s with
  | number x =>
    cases x with
    | int m => exact starts_of_not_mem (paren_not_mem_integer h)
    | float y =>
      obtain rfl := Option.some.inj h
      exact starts_of_not_mem (paren_not_mem_float y)
    | nan m =>
      obtain rfl := Option.some.inj h
      decide
  | string v =>
    obtain rfl := Option.some.inj h
    simp [Text.escaped]
  | boolean b =>
    obtain rfl := Option.some.inj h
    cases b <;> decide

theorem isFunction_of_name (hone : t.isOneOf = false) (hc : t.isContainer = false) (hf : u.isFunction = true) {n : String}
    (ht : name? t = some n) (hu : name? u = some n) : t.isFunction = true := by
  -- only the name of a function starts with a parenthesis
  have hparen : n.toList.head? = some '(' := by
    cases u with
    | function ps r =>
      simp only [name?, Option.bind_eq_bind, Option.bind_eq_some_iff] at hu
      obtain ⟨params, _, m, _, hn⟩ := hu
      rw [← Option.some.inj hn]
      simp
    | _ => simp [isFunction] at hf
  cases t with
  | function ps r => rfl
  | primitive q =>
    obtain rfl := Option.some.inj ht
    cases q <;> simp [Primitive.name] at hparen
  | literal s => exact absurd hparen (starts_literal ht)
  | throws x =>
    cases x with
    | none =>
      obtain rfl := Option.some.inj ht
      simp at hparen
    | some e =>
      obtain rfl := Option.some.inj ht
      split at hparen <;> simp at hparen
  | unknown =>
    obtain rfl := Option.some.inj ht
    simp at hparen
  | never =>
    obtain rfl := Option.some.inj ht
    simp at hparen
  | _ => simp_all [isOneOf, isContainer]

structure Label where
  name : String
  function : Bool
  absent : Bool

namespace Label

def ofNamed (p : Ty × String) : Label := ⟨p.2, p.1.isFunction, p.1.isPrimitive .undefined⟩

def bracketed (l : Label) : String := if l.function then "(" ++ l.name ++ ")" else l.name

def joined : List Label → String
  | [] => "never"
  | [l] => l.name
  | ls => " | ".intercalate ((sortBy (fun a b => textLe a.name b.name) ls).map bracketed)

def asField (key : String) (ls : List Label) : String :=
  if 2 ≤ ls.length ∧ ls.any absent = true then key ++ "?: " ++ joined (ls.filter fun l => !l.absent)
  else key ++ ": " ++ joined ls

def asElement (ls : List Label) : String :=
  (if 2 ≤ ls.length ∨ ls.any function = true then "(" ++ joined ls ++ ")" else joined ls) ++ "[]"

def FunctionsFirst (ls : List Label) : Prop :=
  ls.Pairwise fun a b => a.name = b.name → b.function = true → a.function = true

def rank (l : Label) : String × Bool := (l.name, l.function)

theorem map_bracketed_sortBy (ls : List Label) : (sortBy (fun a b => textLe a.name b.name) ls).map bracketed =
    (sortBy (fun a b => textLe a.1 b.1) (ls.map rank)).map fun r => if r.2 then "(" ++ r.1 ++ ")" else r.1 := by
  have hsort : (sortBy (fun a b => textLe a.name b.name) ls).map rank = sortBy (fun a b => textLe a.1 b.1) (ls.map rank) :=
    map_sortBy rank ls fun _ _ => rfl
  rw [← hsort, List.map_map]
  rfl

section

variable {ls ms : List Label} (hp : ls.Perm ms) (hl : FunctionsFirst ls) (hm : FunctionsFirst ms)

include hp hl hm

theorem sortBy_rank_eq_of_perm :
    sortBy (fun a b => textLe a.1 b.1) (ls.map rank) = sortBy (fun a b => textLe a.1 b.1) (ms.map rank) := by
  have hsorted {ks : List Label} (hk : FunctionsFirst ks) : (sortBy (fun a b => textLe a.1 b.1) (ks.map rank)).Pairwise
      fun a b => a.1 ≤ b.1 ∧ (a.1 = b.1 → b.2 = true → a.2 = true) :=
    pairwise_sortBy_stable (List.pairwise_map.mpr hk)
  have hperm : (sortBy (fun a b => textLe a.1 b.1) (ls.map rank)).Perm
      (sortBy (fun a b => textLe a.1 b.1) (ms.map rank)) :=
    ((sortBy_perm _ _).trans (hp.map rank)).trans (sortBy_perm _ _).symm
  -- the sort leaves equal names as they stand, with functions first in both lists, so ties are equal
  refine hperm.eq_of_pairwise (fun a b _ _ hab hba => ?_) (hsorted hl) (hsorted hm)
  have hname := le_antisymm hab.1 hba.1
  exact Prod.ext hname (Bool.eq_iff_iff.mpr ⟨hba.2 hname.symm, hab.2 hname⟩)

theorem joined_eq_of_perm : joined ls = joined ms := by
  have hsort := sortBy_rank_eq_of_perm hp hl hm
  match ls, ms, hp with
  | [], ms, hp => rw [List.nil_perm.mp hp]
  | [l], ms, hp => rw [List.singleton_perm.mp hp]
  | _ :: _ :: _, [], hp => simp at hp
  | _ :: _ :: _, [m], hp => simp at hp
  | _ :: _ :: _, _ :: _ :: _, _ => simp only [joined, map_bracketed_sortBy, hsort]

theorem asField_eq_of_perm (key : String) : asField key ls = asField key ms := by
  have hrest := joined_eq_of_perm (hp.filter fun l => !l.absent) (hl.filter _) (hm.filter _)
  rw [asField, asField, hp.length_eq, hp.any_eq, hrest, joined_eq_of_perm hp hl hm]

theorem asElement_eq_of_perm : asElement ls = asElement ms := by
  rw [asElement, asElement, hp.length_eq, hp.any_eq, joined_eq_of_perm hp hl hm]

end

end Label

def label? (t : Ty) : Option Label := (name? t).map fun n => .ofNamed (t, n)

def labels? (t : Ty) : Option (List Label) := (parts t).mapM label?

theorem mapM_label? (ts : List Ty) : ts.mapM label? = (names? ts).map fun ns => (ts.zip ns).map .ofNamed := by
  induction ts with
  | nil => rfl
  | cons t ts ih =>
    rw [List.mapM_cons, ih, names?, label?]
    cases name? t <;> cases names? ts <;> simp

theorem labels?_oneOf (ms : List Ty) : labels? (.oneOf ms) = (names? ms).map fun ns => (ms.zip ns).map .ofNamed :=
  mapM_label? ms

theorem labels?_single {t : Ty} (h : parts t = [t]) : labels? t = (name? t).map fun n => [.ofNamed (t, n)] := by
  rw [labels?, h, List.mapM_cons, List.mapM_nil, label?]
  cases name? t <;> rfl

theorem joinNames_eq (named : List (Ty × String)) : joinNames named = Label.joined (named.map .ofNamed) := by
  match named with
  | [] => rfl
  | [_] => rfl
  | p :: q :: named =>
    have hsort : (sortBy (fun a b => textLe a.2 b.2) (p :: q :: named)).map Label.ofNamed =
        sortBy (fun a b => textLe a.name b.name) ((p :: q :: named).map .ofNamed) := map_sortBy _ _ fun _ _ => rfl
    calc joinNames (p :: q :: named)
        = " | ".intercalate (((sortBy (fun a b => textLe a.2 b.2) (p :: q :: named)).map .ofNamed).map Label.bracketed) := by
          rw [List.map_map]
          rfl
      _ = Label.joined ((p :: q :: named).map .ofNamed) := by
          rw [hsort]
          rfl

theorem alternativeField_eq {named : List (Ty × String)} (h : 2 ≤ named.length) (key : String) :
    alternativeField key named = Label.asField key (named.map .ofNamed) := by
  have hfilter : (named.map Label.ofNamed).filter (fun l => !l.absent) =
      (named.filter fun p => !p.1.isPrimitive .undefined).map .ofNamed := List.filter_map
  have hany : (named.map Label.ofNamed).any Label.absent = named.any (·.1.isPrimitive .undefined) := List.any_map
  simp only [alternativeField, Label.asField, List.length_map, h, true_and, hany, hfilter, joinNames_eq]

theorem name?_eq (t : Ty) : name? t = (labels? t).map Label.joined := by
  cases t with
  | oneOf ms =>
    rw [labels?_oneOf, name?]
    cases names? ms <;> simp [joinNames_eq]
  | never => rfl
  | _ =>
    rw [labels?_single rfl]
    cases name? _ <;> rfl

theorem zip_length {ns : List String} (h : names? ts = some ns) : (ts.zip ns).length = ts.length := by
  rw [List.length_zip, names?_length h, Nat.min_self]

theorem fieldNames?_cons {t : Ty} (h : t.WellFormed) (key : String) (fs : List (String × Ty)) :
    fieldNames? ((key, t) :: fs) =
      ((labels? t).map (Label.asField key)).bind fun n => (fieldNames? fs).map (n :: ·) := by
  cases t with
  | oneOf ms =>
    rw [labels?_oneOf, fieldNames?]
    cases hn : names? ms with
    | none => rfl
    | some ns =>
      have hlen : 2 ≤ (ms.zip ns).length := (zip_length hn).symm ▸ (wellFormed_oneOf.mp h).1.1
      cases fieldNames? fs <;> simp [alternativeField_eq hlen]
  | never =>
    simp only [fieldNames?, name?]
    cases fieldNames? fs <;> rfl
  | _ =>
    rw [labels?_single rfl]
    simp only [fieldNames?]
    cases name? _ <;> cases fieldNames? fs <;> simp [Label.asField, Label.joined, Label.ofNamed]

theorem name?_array {e : Ty} (h : e.WellFormed) : name? (.array e) = (labels? e).map Label.asElement := by
  have hname : name? (.array e) = (name? e).map fun n => (if e.isOneOf || e.isFunction then "(" ++ n ++ ")" else n) ++ "[]" := by
    rw [name?]
    cases name? e <;> rfl
  rw [hname]
  cases e with
  | oneOf ms =>
    rw [name?_eq, labels?_oneOf]
    cases hn : names? ms with
    | none => rfl
    | some ns =>
      have hlen : 2 ≤ ((ms.zip ns).map Label.ofNamed).length := by
        rw [List.length_map, zip_length hn]
        exact (wellFormed_oneOf.mp h).1.1
      simp only [Option.map_some, Label.asElement, if_pos (Or.inl hlen)]
      rfl
  | never => rfl
  | _ =>
    rw [labels?_single rfl]
    cases name? _ <;> simp [Label.asElement, Label.joined, Label.ofNamed, isOneOf]

structure Ranked (ms : List Ty) : Prop where
  flat : ∀ m ∈ ms, m.isOneOf = false
  ordered : ms.Pairwise fun a b => b.isFunction = true → a.isContainer = false

theorem Ranked.functionsFirst {ms : List Ty} (h : Ranked ms) {ls : List Label} (hl : ms.mapM label? = some ls) :
    Label.FunctionsFirst ls := by
  have hpairs : (ms.map label?).Pairwise fun x y => ∀ a b, x = some a → y = some b →
      a.name = b.name → b.function = true → a.function = true := by
    refine List.pairwise_map.mpr (h.ordered.imp_of_mem fun {t u} ht _ htu a b ha hb hname hf => ?_)
    obtain ⟨n, hn, rfl⟩ := Option.map_eq_some_iff.mp ha
    obtain ⟨m, hm, rfl⟩ := Option.map_eq_some_iff.mp hb
    exact isFunction_of_name (h.flat t ht) (htu hf) hf hn (hm.trans (congrArg some hname.symm))
  rw [mapM_eq_some_iff.mp hl, List.pairwise_map] at hpairs
  exact hpairs.imp fun hab => hab _ _ rfl rfl

structure Twin (t u : Ty) : Prop where
  labels : ((parts t).map label?).Perm ((parts u).map label?)
  left : Ranked (parts t)
  right : Ranked (parts u)

namespace Twin

theorem map_labels? (h : Twin t u) {write : List Label → String} (hw : ∀ {ls ms : List Label}, ls.Perm ms →
    Label.FunctionsFirst ls → Label.FunctionsFirst ms → write ls = write ms) :
    (labels? t).map write = (labels? u).map write := by
  cases ht : labels? t with
  | none =>
    cases hu : labels? u with
    | none => rfl
    | some ms =>
      obtain ⟨ls, hl, _⟩ := mapM_of_perm h.labels.symm hu
      simp [labels?, hl] at ht
  | some ls =>
    obtain ⟨ms, hm, hp⟩ := mapM_of_perm h.labels ht
    rw [labels?, hm, Option.map_some, Option.map_some, hw hp (h.left.functionsFirst ht) (h.right.functionsFirst hm)]

theorem name?_eq (h : Twin t u) : name? t = name? u := by
  rw [Ty.name?_eq, Ty.name?_eq, h.map_labels? Label.joined_eq_of_perm]

theorem name?_array (h : Twin t u) (ht : t.WellFormed) (hu : u.WellFormed) : name? (.array t) = name? (.array u) := by
  rw [Ty.name?_array ht, Ty.name?_array hu, h.map_labels? Label.asElement_eq_of_perm]

end Twin

theorem names?_congr {ι : Type} {is : List ι} {f g : ι → Ty} (h : ∀ i ∈ is, name? (f i) = name? (g i)) :
    names? (is.map f) = names? (is.map g) := by
  induction is with
  | nil => rfl
  | cons i is ih =>
    rw [List.forall_mem_cons] at h
    simp only [List.map_cons, names?, h.1, ih h.2]

theorem fieldNames?_congr {keys : List String} {f g : String → Ty} (hf : ∀ key ∈ keys, (f key).WellFormed)
    (hg : ∀ key ∈ keys, (g key).WellFormed) (h : ∀ key ∈ keys, Twin (f key) (g key)) :
    fieldNames? (keys.map fun key => (key, f key)) = fieldNames? (keys.map fun key => (key, g key)) := by
  induction keys with
  | nil => rfl
  | cons key keys ih =>
    rw [List.forall_mem_cons] at hf hg h
    have hkey := h.1.map_labels? fun hp hl hm => Label.asField_eq_of_perm hp hl hm key
    rw [List.map_cons, List.map_cons, fieldNames?_cons hf.1, fieldNames?_cons hg.1, ih hf.2 hg.2 h.2, hkey]

theorem name?_object_congr {keys : List String} {f g : String → Ty} (hf : ∀ key ∈ keys, (f key).WellFormed)
    (hg : ∀ key ∈ keys, (g key).WellFormed) (h : ∀ key ∈ keys, Twin (f key) (g key)) :
    name? (.object (keys.map fun key => (key, f key))) = name? (.object (keys.map fun key => (key, g key))) := by
  have hnames := fieldNames?_congr hf hg h
  cases keys with
  | nil => rfl
  | cons key keys =>
    rw [List.map_cons, List.map_cons] at hnames ⊢
    rw [name?, name?, hnames] <;> simp

end Ty

end Casewise
