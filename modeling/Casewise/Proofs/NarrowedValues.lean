import Casewise.Concrete.Value
import Casewise.Proofs.Assignability
import Casewise.Proofs.TypeSplits

namespace Casewise

theorem Scalar.truth_of_same {c d : Scalar} (h : c.same d = true) : c.truth = d.truth := by
  cases c with
  | number n =>
    cases d with
    | number k =>
      have he : n.exact = k.exact := by
        rcases (Number.same_iff n k).mp h with ⟨_, rfl, rfl⟩ | ⟨he, _⟩
        · rfl
        · exact he
      simp only [truth, Number.isZero, he]
    | _ => cases h
  | string s => cases d <;> simp_all [same, truth]
  | boolean b => cases d <;> simp_all [same, truth]

namespace Ty

variable {t x m : Ty} {b : Bool}

/-- How one alternative takes another: it is of the same form, and agrees with it on known values and lengths. -/
inductive Takes : Ty → Ty → Prop
  | primitive (p : Primitive) : Takes (.primitive p) (.primitive p)
  | literal (c : Scalar) : Takes (.primitive c.primitive) (.literal c)
  | known {c d : Scalar} (same : c.same d = true) : Takes (.literal d) (.literal c)
  | array (a e : Ty) : Takes (.array e) (.array a)
  | tuple {as es : List Ty} (length : as.length = es.length) : Takes (.tuple es) (.tuple as)
  | sequence (as : List Ty) (e : Ty) : Takes (.array e) (.tuple as)
  | object (fs gs : List (String × Ty)) : Takes (.object gs) (.object fs)
  | function (ps qs : List Ty) (r s : Ty) : Takes (.function qs s) (.function ps r)
  | throws (e f : Option String) : Takes (.throws f) (.throws e)

theorem takes_of_assignable (hx : isAlternative x = true) (hm : m.isOneOf = false) (hu : m ≠ .unknown)
    (h : assignable x m = true) : Takes m x := by
  have hno {p : Prop} (hf : false = true) : p := nomatch hf
  cases m with
  | oneOf ms => cases hm
  | unknown => exact absurd rfl hu
  | never => cases x <;> first | exact hno h | exact hno hx
  | primitive p =>
    cases x with
    | primitive q =>
      have hs : Ty.primitive p = .primitive q := by simpa [assignable, members, isUnknown] using h
      exact hs ▸ .primitive p
    | literal c =>
      obtain rfl : c.primitive = p := by simpa [assignable, members] using h
      exact .literal c
    | _ => first | exact hno h | exact hno hx
  | literal d =>
    cases x with
    | literal c => exact .known (by simpa [assignable, members, isUnknown, same] using h)
    | _ => first | exact hno h | exact hno hx
  | array e =>
    cases x with
    | array a => exact .array a e
    | tuple as => exact .sequence as e
    | _ => first | exact hno h | exact hno hx
  | tuple es =>
    cases x with
    | tuple as =>
      exact .tuple (eachAssignable_iff.mp (by simpa [assignable, members, isUnknown] using h)).length_eq
    | _ => first | exact hno h | exact hno hx
  | object gs =>
    cases x with
    | object fs => exact .object fs gs
    | _ => first | exact hno h | exact hno hx
  | function qs s =>
    cases x with
    | function ps r => exact .function ps qs r s
    | _ => first | exact hno h | exact hno hx
  | throws f =>
    cases x with
    | throws e => exact .throws e f
    | _ => first | exact hno h | exact hno hx

namespace Takes

variable (h : Takes m x)

include h

theorem kind_eq : m.kind = x.kind := by
  cases h with
  | known hs => rw [kind, kind, Scalar.primitive_of_same hs]
  | _ => rfl

theorem truth?_eq (hb : m.truth? = some b) : x.truth? = some b := by
  cases h with
  | primitive p => exact hb
  | literal c => cases c <;> cases hb
  | known hs => rw [← hb, truth?, truth?, Scalar.truth_of_same hs]
  | @tuple as es hlen =>
    have he : as.isEmpty = es.isEmpty := by rw [Bool.eq_iff_iff]; simp [← List.length_eq_zero_iff, hlen]
    rw [← hb, truth?, truth?, he]
  | function ps qs r s => exact hb
  | _ => cases hb

theorem null_eq (hx : x = null) : m = null := by
  cases h with
  | primitive p => exact hx
  | _ => cases hx

theorem of_null (hm : m = null) : x = null := by
  cases h with
  | primitive p => exact hm
  | literal c => cases c <;> cases hm
  | _ => cases hm

end Takes

theorem exists_taker (hx : isAlternative x = true) (ht : t.WellFormed) (h : assignable x t = true) :
    t = .unknown ∨ ∃ m ∈ t.members, m ≠ .unknown ∧ assignable x m = true ∧ Takes m x := by
  obtain ⟨m, hm, hxm⟩ := (assignable_iff_exists hx fun _ => isOneOf_members ht).mp h
  by_cases hu : m = .unknown
  · exact .inl (eq_unknown_of_mem_members ht (hu ▸ hm))
  · exact .inr ⟨m, hm, hu, hxm, takes_of_assignable hx (isOneOf_members ht hm) hu hxm⟩

theorem truth?_of_agreed {os : List (Option Bool)} (h : agreed os = some b) : ∀ o ∈ os, o = some b := by
  cases os with
  | nil => cases h
  | cons o os =>
    rw [agreed] at h
    split at h
    · next hall =>
      subst h
      simpa using hall
    · cases h

theorem truths_eq_map (ts : List Ty) : truths ts = ts.map truth? := by
  induction ts with
  | nil => rfl
  | cons t ts ih => rw [truths, ih, List.map_cons]

theorem truth?_of_members (h : t.truth? = some b) {m : Ty} (hm : m ∈ t.members) : m.truth? = some b := by
  cases t with
  | oneOf ms =>
    rw [truth?, truths_eq_map] at h
    exact truth?_of_agreed h _ (List.mem_map_of_mem hm)
  | _ => exact List.mem_singleton.mp hm ▸ h

section

variable (hx : isAlternative x = true) (hb : x ≠ boolean) (ht : t.WellFormed) (h : assignable x t = true)

include hx ht h

theorem truth?_of_assignable (htruth : t.truth? = some b) : x.truth? = some b := by
  obtain rfl | ⟨m, hm, _, _, htakes⟩ := exists_taker hx ht h
  · cases htruth
  · exact htakes.truth?_eq (truth?_of_members htruth hm)

include hb

theorem assignable_ofTruth (htruth : x.truth? ≠ some (!b)) :
    ∃ m ∈ byName t, ∃ u, ofTruth b m = some u ∧ assignable x u = true := by
  obtain rfl | ⟨m, hm, _, hxm, htakes⟩ := exists_taker hx ht h
  · exact ⟨.unknown, by simp [mem_byName, members], .unknown, by cases b <;> rfl, assignable_unknown x⟩
  · refine ⟨m, mem_byName.mpr hm, ?_⟩
    by_cases hbool : m = boolean
    · subst hbool
      obtain ⟨c, rfl⟩ := assignable_to_boolean hx hb hxm
      obtain rfl : c = b := by cases b <;> cases c <;> simp_all [truth?, bool, Scalar.truth]
      exact ⟨_, ofTruth_eq_some.mpr (.inl ⟨rfl, rfl⟩), assignable_of_same rfl (by cases c <;> rfl)⟩
    · refine ⟨m, ofTruth_eq_some.mpr (.inr ⟨hbool, ?_, rfl⟩), hxm⟩
      exact fun hmb => htruth (htakes.truth?_eq hmb)

end

def PartTakes (t x : Ty) (part : Except Fault Ty) : Prop :=
  if t.Nameable then ∃ a, part = .ok a ∧ a ≠ .never ∧ assignable x a = true else part = .error .tooLong

theorem ne_never_of_assignable (hx : isAlternative x = true) (h : assignable x t = true) : t ≠ .never := by
  rintro rfl
  cases x <;> first | exact nomatch (show false = true from h) | exact nomatch (show false = true from hx)

theorem partTakes_of_members {f : Ty → Option Ty} (hx : isAlternative x = true) (hb : x ≠ boolean)
    (hf : ∀ m ∈ t.members, ∀ u, f m = some u → u.WellFormed)
    (h : ∃ m ∈ byName t, ∃ u, f m = some u ∧ assignable x u = true) :
    PartTakes t x (t.sortedMembers >>= fun ms => pure (union (ms.filterMap f))) := by
  unfold PartTakes
  split
  · next hn =>
    refine ⟨_, sortedMembers_bind_eq_ok.mpr ⟨hn, rfl⟩, ?_⟩
    have hwf : ∀ u ∈ (byName t).filterMap f, u.WellFormed := by
      intro u hu
      obtain ⟨m, hm, hmu⟩ := List.mem_filterMap.mp hu
      exact hf m (mem_byName.mp hm) u hmu
    have htakes : assignable x (union ((byName t).filterMap f)) = true := by
      obtain ⟨m, hm, u, hu, hxu⟩ := h
      exact (assignable_union_iff hx hwf hb).mpr ⟨u, List.mem_filterMap.mpr ⟨m, hm, hu⟩, hxu⟩
    exact ⟨ne_never_of_assignable hx htakes, htakes⟩
  · next hn => exact sortedMembers_bind_of_not_nameable hn

section

variable (hx : isAlternative x = true) (hb : x ≠ boolean) (ht : t.WellFormed) (h : assignable x t = true)

include hx hb ht h

theorem partTakes_truthPart (htruth : x.truth? ≠ some (!b)) : PartTakes t x (t.truthPart b) := by
  refine partTakes_of_members (f := ofTruth b) hx hb (fun m hm u hu => ?_) (assignable_ofTruth hx hb ht h htruth)
  obtain ⟨_, rfl⟩ | ⟨_, _, rfl⟩ := ofTruth_eq_some.mp hu
  · rfl
  · exact every_members ht hm

theorem partTakes_withoutNone (hnull : x ≠ null) : PartTakes t x t.withoutNone := by
  have hfilter : t.withoutNone =
      t.sortedMembers >>= fun ms => pure (union (ms.filterMap (Option.guard fun m => !m.isPrimitive .null))) := by
    simp only [List.filterMap_eq_filter]
    rfl
  rw [hfilter]
  refine partTakes_of_members hx hb (fun m hm u hu => ?_) ?_
  · obtain ⟨rfl, _⟩ := Option.guard_eq_some_iff.mp hu
    exact every_members ht hm
  · obtain rfl | ⟨m, hm, _, hxm, htakes⟩ := exists_taker hx ht h
    · exact ⟨.unknown, by simp [mem_byName, members], .unknown, rfl, assignable_unknown x⟩
    · have hne : (!m.isPrimitive .null) = true := by
        rw [Bool.not_eq_true', Bool.eq_false_iff, Ne, isPrimitive_iff]
        exact fun he => hnull (htakes.of_null he)
      exact ⟨m, mem_byName.mpr hm, m, Option.guard_eq_some_iff.mpr ⟨rfl, hne⟩, hxm⟩

end

theorem partTakes_nonePart (ht : t.WellFormed) (h : assignable null t = true) : PartTakes t null t.nonePart := by
  obtain rfl | ⟨m, hm, _, _, htakes⟩ := exists_taker rfl ht h
  · exact ⟨null, rfl, nofun, rfl⟩
  · have hnull : null ∈ t.members := htakes.null_eq rfl ▸ hm
    unfold PartTakes
    split
    · next hn =>
      obtain ⟨u, hu⟩ := nonePart_of_nameable hn
      obtain ⟨_, rfl⟩ | ⟨_, rfl⟩ | ⟨hno, _⟩ := nonePart_of_ok hu
      · exact ⟨null, hu, nofun, rfl⟩
      · exact ⟨null, hu, nofun, rfl⟩
      · exact absurd hnull hno
    · next hn =>
      have hknown : t.isUnknown = false := by
        rw [Bool.eq_false_iff, Ne, isUnknown_iff]
        rintro rfl
        exact hn rfl
      rw [nonePart, hknown]
      exact sortedMembers_bind_of_not_nameable hn

end Ty

namespace Concrete.Value

inductive Plain : Value → Prop
  | null : Plain .null
  | scalar (x : Scalar) : Plain (.scalar x)
  | list {vs : List Value} (items : ∀ v ∈ vs, Plain v) : Plain (.list vs)
  | tuple {vs : List Value} (items : ∀ v ∈ vs, Plain v) : Plain (.tuple vs)
  | dict {es : List (Value × Value)} (keys : ∀ e ∈ es, ∃ k, e.1 = text k) (values : ∀ e ∈ es, Plain e.2) :
    Plain (.dict es)

def truth : Value → Bool
  | .null => false
  | .scalar x => x.truth
  | .list vs => !vs.isEmpty
  | .tuple vs => !vs.isEmpty
  | .set vs => !vs.isEmpty
  | .dict es => !es.isEmpty
  | _ => true

def isNull : Value → Bool
  | .null => true
  | _ => false

variable {s : Store} {v : Value}

theorem fields?_of_texts {es : List (Value × Value)} (h : ∀ e ∈ es, ∃ k, e.1 = text k) :
    ∃ fs, fields? s es = some fs := by
  induction es with
  | nil => exact ⟨[], rfl⟩
  | cons e es ih =>
    obtain ⟨k, v⟩ := e
    obtain ⟨name, rfl⟩ : ∃ name, k = text name := h (k, v) (by simp)
    obtain ⟨fs, hfs⟩ := ih fun e he => h e (by simp [he])
    exact ⟨(name, type s v) :: fs, by rw [fields?, hfs]; rfl⟩

theorem types_isEmpty (vs : List Value) : (types s vs).isEmpty = vs.isEmpty := by
  cases vs <;> rfl

namespace Plain

variable (h : v.Plain)

include h

theorem isAlternative_type : Ty.isAlternative (v.type s) = true := by
  cases h with
  | dict keys _ =>
    obtain ⟨fs, hfs⟩ := fields?_of_texts (s := s) keys
    rw [type, hfs]
    rfl
  | _ => rfl

theorem type_ne_boolean : v.type s ≠ Ty.boolean := by
  cases h with
  | dict keys _ =>
    obtain ⟨fs, hfs⟩ := fields?_of_texts (s := s) keys
    rw [type, hfs]
    nofun
  | _ => nofun

theorem type_eq_null : v.type s = Ty.null ↔ v.isNull = true := by
  cases h with
  | null => exact iff_of_true rfl rfl
  | dict keys _ =>
    obtain ⟨fs, hfs⟩ := fields?_of_texts (s := s) keys
    rw [type, hfs]
    exact iff_of_false nofun nofun
  | _ => exact iff_of_false nofun nofun

theorem truth_of_type {b : Bool} (hb : (v.type s).truth? = some b) : v.truth = b := by
  cases h with
  | null => exact Option.some.inj hb
  | scalar x => exact Option.some.inj hb
  | list _ => cases hb
  | @tuple vs _ =>
    rw [type, Ty.truth?, types_isEmpty] at hb
    exact Option.some.inj hb
  | dict keys _ =>
    obtain ⟨fs, hfs⟩ := fields?_of_texts (s := s) keys
    rw [type, hfs] at hb
    cases hb

end Plain

/-- Tests on truth and on nothing keep every value on its branch. -/
theorem narrowing_keeps_values (s : Store) (v : Value) (t : Ty) (plain : v.Plain) (wf : t.WellFormed)
    (fits : Ty.assignable (v.type s) t = true) :
    (∀ b, t.truth? = some b → v.truth = b) ∧
    Ty.PartTakes t (v.type s) (t.truthPart v.truth) ∧
    Ty.PartTakes t (v.type s) (if v.isNull then t.nonePart else t.withoutNone) := by
  have hx := plain.isAlternative_type (s := s)
  have hb := plain.type_ne_boolean (s := s)
  refine ⟨fun b htruth => ?_, ?_, ?_⟩
  · exact plain.truth_of_type (Ty.truth?_of_assignable hx wf fits htruth)
  · refine Ty.partTakes_truthPart hx hb wf fits fun htruth => ?_
    have hv := plain.truth_of_type htruth
    cases h : v.truth <;> simp [h] at hv
  · split
    · next hnull =>
      rw [plain.type_eq_null.mpr hnull] at fits ⊢
      exact Ty.partTakes_nonePart wf fits
    · next hnull => exact Ty.partTakes_withoutNone hx hb wf fits (plain.type_eq_null.not.mpr hnull)

theorem narrowing_keeps_values_of_pair :
    Ty.PartTakes (.oneOf [Ty.null, Ty.boolean, .tuple [Ty.number]]) (.tuple [Ty.int 1])
      (Ty.truthPart (.oneOf [Ty.null, Ty.boolean, .tuple [Ty.number]]) true) ∧
    Ty.PartTakes (.oneOf [Ty.null, Ty.boolean, .tuple [Ty.number]]) (.tuple [Ty.int 1])
      (Ty.withoutNone (.oneOf [Ty.null, Ty.boolean, .tuple [Ty.number]])) := by
  have plain : (Value.tuple [int 1]).Plain := .tuple (by simpa using .scalar _)
  exact (narrowing_keeps_values {} (.tuple [int 1]) (.oneOf [Ty.null, Ty.boolean, .tuple [Ty.number]]) plain
    (by decide) (by decide)).2

-- an integer of more than 4300 digits has no name, by which alternatives are put in order
example : ((Ty.oneOf [Ty.int (10 ^ 4300), Ty.int 2]).truthPart true).toOption.isNone = true ∧
    Ty.assignable ((int 2).type {}) (.oneOf [Ty.int (10 ^ 4300), Ty.int 2]) = true := by
  decide +kernel

def isInstanceOf (s : Store) (classes : List KnownClass) (v : Value) : Bool :=
  classes.any fun c => c.name == v.className s || (c == .int && v.className s == KnownClass.bool.name)

def knownClasses : Value → List KnownClass
  | .scalar (.number (.int _)) => [.int]
  | .scalar (.number _) => [.float]
  | .scalar (.string _) => [.str]
  | .scalar (.boolean _) => [.bool, .int]
  | .list _ => [.list]
  | .tuple _ => [.tuple]
  | .dict _ => [.dict]
  | _ => []

theorem Plain.isInstanceOf_iff {classes : List KnownClass} (h : v.Plain) :
    v.isInstanceOf s classes = true ↔ ∃ c ∈ classes, c ∈ v.knownClasses := by
  have hof (f : KnownClass → Bool) (hf : ∀ c, f c = v.knownClasses.contains c) :
      classes.any f = true ↔ ∃ c ∈ classes, c ∈ v.knownClasses := by
    simp [hf]
  refine hof _ fun c => ?_
  cases h with
  | scalar x =>
    cases x with
    | number n => cases n <;> cases c <;> rfl
    | _ => cases c <;> rfl
  | _ => cases c <;> rfl

theorem Plain.kind_mem_kinds (h : v.Plain) {c : KnownClass} (hc : c ∈ v.knownClasses) :
    (v.type s).kind ∈ c.kinds := by
  cases h with
  | null => cases hc
  | scalar x =>
    cases x with
    | number n =>
      cases n <;>
      · obtain rfl := List.mem_singleton.mp hc
        exact List.mem_cons_self
    | string t =>
      obtain rfl := List.mem_singleton.mp hc
      exact List.mem_cons_self
    | boolean b =>
      obtain rfl | rfl : c = .bool ∨ c = .int := by simpa [knownClasses] using hc
      · exact List.mem_cons_self
      · exact List.mem_cons_of_mem _ List.mem_cons_self
  | dict keys _ =>
    obtain ⟨fs, hfs⟩ := fields?_of_texts (s := s) keys
    obtain rfl := List.mem_singleton.mp hc
    rw [type, hfs]
    exact List.mem_cons_self
  | _ =>
    obtain rfl := List.mem_singleton.mp hc
    exact List.mem_cons_self

theorem Plain.eq_tuple (h : v.Plain) {ts : List Ty} (ht : v.type s = .tuple ts) : v.knownClasses = [.tuple] := by
  cases h with
  | tuple _ => rfl
  | dict keys _ =>
    obtain ⟨fs, hfs⟩ := fields?_of_texts (s := s) keys
    rw [type, hfs] at ht
    cases ht
  | _ => cases ht

end Concrete.Value

namespace Ty

variable {classes : List KnownClass} {t x m : Ty}

theorem Takes.isInstance_iff (h : Takes m x) (hm : ∀ es, m ≠ .tuple es) :
    m.isInstance classes = true ↔ x.kind ∈ classes.flatMap KnownClass.kinds := by
  rw [← h.kind_eq]
  cases m with
  | tuple es => exact absurd rfl (hm es)
  | _ => simp [isInstance]

theorem isInstance_tuple {es : List Ty} : (tuple es).isInstance classes = true ↔ .tuple ∈ classes := by
  simp [isInstance]

theorem assignable_instancePart {b : Bool} (hx : isAlternative x = true) (hb : x ≠ boolean) (ht : t.WellFormed)
    (hu : t ≠ .unknown) :
    assignable x (union ((byName t).filterMap (ofInstance classes b))) = true ↔
      ∃ m ∈ t.members, m.isInstance classes = b ∧ assignable x m = true := by
  have hknown {m : Ty} (hm : m ∈ t.members) : m ≠ .unknown := fun he => hu (eq_unknown_of_mem_members ht (he ▸ hm))
  rw [assignable_union_iff hx _ hb]
  · constructor
    · rintro ⟨u, hmem, hxu⟩
      obtain ⟨m, hm, hmu⟩ := List.mem_filterMap.mp hmem
      have hm := mem_byName.mp hm
      obtain ⟨hi, rfl⟩ := (ofInstance_of_known (hknown hm)).mp hmu
      exact ⟨u, hm, hi, hxu⟩
    · rintro ⟨m, hm, hi, hxm⟩
      have hmu := (ofInstance_of_known (hknown hm)).mpr ⟨hi, rfl⟩
      exact ⟨m, List.mem_filterMap.mpr ⟨m, mem_byName.mpr hm, hmu⟩, hxm⟩
  · intro u hmem
    obtain ⟨m, hm, hmu⟩ := List.mem_filterMap.mp hmem
    have hm := mem_byName.mp hm
    obtain ⟨_, rfl⟩ := (ofInstance_of_known (hknown hm)).mp hmu
    exact every_members ht hm

theorem assignable_instancesOf (hx : isAlternative x = true) (hb : x ≠ boolean) :
    assignable x (instancesOf classes) = true ↔
      (∃ c ∈ classes, c.type? = none) ∨ ∃ c ∈ classes, ∃ u, c.type? = some u ∧ assignable x u = true := by
  unfold instancesOf
  cases hts : classes.mapM KnownClass.type? with
  | none =>
    refine iff_of_true (assignable_unknown x) (.inl ?_)
    by_contra hall
    have hsome : (classes.mapM KnownClass.type?).isSome = true :=
      mapM_isSome.mpr fun c hc => Option.isSome_iff_ne_none.mpr fun hn => hall ⟨c, hc, hn⟩
    rw [hts] at hsome
    cases hsome
  | some ts =>
    have hmap := mapM_eq_some_iff.mp hts
    have hmem (u : Ty) : u ∈ ts ↔ ∃ c ∈ classes, c.type? = some u := by
      rw [← List.mem_map, hmap]
      simp
    have hwf : ∀ u ∈ ts, u.WellFormed := by
      intro u hu
      obtain ⟨c, _, hc⟩ := (hmem u).mp hu
      cases c <;> cases hc <;> rfl
    rw [assignable_union_iff hx hwf hb]
    constructor
    · rintro ⟨u, hu, hxu⟩
      obtain ⟨c, hc, hcu⟩ := (hmem u).mp hu
      exact .inr ⟨c, hc, u, hcu, hxu⟩
    · rintro (⟨c, hc, hnone⟩ | ⟨c, hc, u, hcu, hxu⟩)
      · have hnot : none ∈ ts.map some := hmap ▸ List.mem_map.mpr ⟨c, hc, hnone⟩
        simp at hnot
      · exact ⟨u, (hmem u).mpr ⟨c, hc, hcu⟩, hxu⟩

theorem wellFormed_instancesOf (classes : List KnownClass) : (instancesOf classes).WellFormed :=
  (instancesOf_regular_named classes).1.wellFormed

end Ty

namespace Concrete.Value

variable {s : Store} {v : Value} {t : Ty} {classes : List KnownClass}

/-- The outcome of an instance test that leaves a value out: an unknown truth value counts as an integer, which its
type is not, or the value is no instance, but its type is of the kind of those that are and the declared type has no
tuple for it. -/
def Misjudged (s : Store) (v : Value) (t : Ty) (classes : List KnownClass) : Prop :=
  if v.isInstanceOf s classes then
    t = .unknown ∧ (∃ b, v = .scalar (.boolean b)) ∧ (∀ c ∈ classes, c.type? ≠ none) ∧ .bool ∉ classes
  else
    t ≠ .unknown ∧ (v.type s).kind ∈ classes.flatMap KnownClass.kinds ∧
      ∀ es, .tuple es ∈ t.members → Ty.assignable (v.type s) (.tuple es) = false

theorem Plain.assignable_type (h : v.Plain) (hb : ∀ b, v ≠ .scalar (.boolean b)) {c : KnownClass}
    (hc : c ∈ v.knownClasses) {u : Ty} (hu : c.type? = some u) : Ty.assignable (v.type s) u = true := by
  cases h with
  | null => cases hc
  | scalar x =>
    cases x with
    | number n =>
      cases n <;>
      · obtain rfl := List.mem_singleton.mp hc
        obtain rfl := Option.some.inj hu
        rfl
    | string t =>
      obtain rfl := List.mem_singleton.mp hc
      obtain rfl := Option.some.inj hu
      rfl
    | boolean b => exact absurd rfl (hb b)
  | _ =>
    obtain rfl := List.mem_singleton.mp hc
    cases hu

theorem assignable_truth_value {b : Bool} {c : KnownClass} {u : Ty} (hu : c.type? = some u) :
    Ty.assignable (.literal (.boolean b)) u = true ↔ c = .bool := by
  cases c <;> cases hu <;> simp [Ty.assignable, Ty.members, Ty.number, Ty.boolean, Ty.string, Scalar.primitive]

theorem Plain.assignable_instancesOf_iff (h : v.Plain) (hi : v.isInstanceOf s classes = true) :
    Ty.assignable (v.type s) (Ty.instancesOf classes) = true ↔
      ¬ ((∃ b, v = .scalar (.boolean b)) ∧ (∀ c ∈ classes, c.type? ≠ none) ∧ .bool ∉ classes) := by
  rw [Ty.assignable_instancesOf h.isAlternative_type h.type_ne_boolean]
  by_cases hb : ∃ b, v = .scalar (.boolean b)
  · obtain ⟨b, rfl⟩ := hb
    constructor
    · rintro (⟨c, hc, hnone⟩ | ⟨c, hc, u, hu, hxu⟩) ⟨_, htyped, hbool⟩
      · exact htyped c hc hnone
      · exact hbool ((assignable_truth_value hu).mp hxu ▸ hc)
    · intro hlost
      by_cases htyped : ∀ c ∈ classes, c.type? ≠ none
      · have hbool : .bool ∈ classes := by
          by_contra hbool
          exact hlost ⟨⟨b, rfl⟩, htyped, hbool⟩
        exact .inr ⟨.bool, hbool, Ty.boolean, rfl, (assignable_truth_value rfl).mpr rfl⟩
      · push Not at htyped
        exact .inl htyped
  · refine iff_of_true ?_ fun hlost => hb hlost.1
    obtain ⟨c, hc, hcv⟩ := h.isInstanceOf_iff.mp hi
    cases hu : c.type? with
    | none => exact .inl ⟨c, hc, hu⟩
    | some u => exact .inr ⟨c, hc, u, hu, h.assignable_type (fun b he => hb ⟨b, he⟩) hcv hu⟩

theorem Plain.kind_mem_of_isInstanceOf (h : v.Plain) (hi : v.isInstanceOf s classes = true) :
    (v.type s).kind ∈ classes.flatMap KnownClass.kinds := by
  obtain ⟨c, hc, hcv⟩ := h.isInstanceOf_iff.mp hi
  exact List.mem_flatMap.mpr ⟨c, hc, h.kind_mem_kinds hcv⟩

theorem Plain.isInstance_tuple_taker (h : v.Plain) {es : List Ty} (htakes : Ty.Takes (.tuple es) (v.type s)) :
    (Ty.tuple es).isInstance classes = v.isInstanceOf s classes := by
  obtain ⟨as, has⟩ : ∃ as, v.type s = .tuple as := by
    generalize v.type s = x at htakes
    cases htakes with
    | @tuple as _ _ => exact ⟨as, rfl⟩
  rw [Bool.eq_iff_iff, Ty.isInstance_tuple, h.isInstanceOf_iff, h.eq_tuple has]
  simp

theorem Plain.isInstance_taker (h : v.Plain) {m : Ty} (htakes : Ty.Takes m (v.type s))
    (hi : v.isInstanceOf s classes = true) : m.isInstance classes = true := by
  by_cases hm : ∃ es, m = .tuple es
  · obtain ⟨es, rfl⟩ := hm
    rw [h.isInstance_tuple_taker htakes, hi]
  · exact (htakes.isInstance_iff fun es he => hm ⟨es, he⟩).mpr (h.kind_mem_of_isInstanceOf hi)

theorem Plain.exists_taker_iff (h : v.Plain) (wf : t.WellFormed) (hu : t ≠ .unknown)
    (fits : Ty.assignable (v.type s) t = true) (hi : v.isInstanceOf s classes = false) :
    (∃ m ∈ t.members, m.isInstance classes = false ∧ Ty.assignable (v.type s) m = true) ↔
      ¬ ((v.type s).kind ∈ classes.flatMap KnownClass.kinds ∧
        ∀ es, .tuple es ∈ t.members → Ty.assignable (v.type s) (.tuple es) = false) := by
  have htakes {m : Ty} (hm : m ∈ t.members) (hxm : Ty.assignable (v.type s) m = true) : Ty.Takes m (v.type s) :=
    Ty.takes_of_assignable h.isAlternative_type (Ty.isOneOf_members wf hm)
      (fun he => hu (Ty.eq_unknown_of_mem_members wf (he ▸ hm))) hxm
  have hother {m : Ty} (hm : m ∈ t.members) (hxm : Ty.assignable (v.type s) m = true)
      (hk : (v.type s).kind ∉ classes.flatMap KnownClass.kinds ∨ ∃ es, m = .tuple es) :
      m.isInstance classes = false := by
    by_cases htuple : ∃ es, m = .tuple es
    · obtain ⟨es, rfl⟩ := htuple
      rw [h.isInstance_tuple_taker (htakes hm hxm), hi]
    · have hm' (es : List Ty) : m ≠ .tuple es := fun he => htuple ⟨es, he⟩
      rw [Bool.eq_false_iff, Ne, (htakes hm hxm).isInstance_iff hm']
      exact hk.resolve_right htuple
  constructor
  · rintro ⟨m, hm, hno, hxm⟩ ⟨hk, hnone⟩
    have hm' (es : List Ty) : m ≠ .tuple es := by
      rintro rfl
      rw [hnone es hm] at hxm
      cases hxm
    rw [((htakes hm hxm).isInstance_iff hm').mpr hk] at hno
    cases hno
  · intro hlost
    by_cases hk : (v.type s).kind ∈ classes.flatMap KnownClass.kinds
    · obtain ⟨es, hes, hxes⟩ : ∃ es, .tuple es ∈ t.members ∧ Ty.assignable (v.type s) (.tuple es) = true := by
        by_contra hnone
        refine hlost ⟨hk, fun es hes => Bool.eq_false_iff.mpr fun hxes => hnone ⟨es, hes, hxes⟩⟩
      exact ⟨_, hes, hother hes hxes (.inr ⟨es, rfl⟩), hxes⟩
    · obtain rfl | ⟨m, hm, _, hxm, _⟩ := Ty.exists_taker h.isAlternative_type wf fits
      · exact absurd rfl hu
      · exact ⟨m, hm, hother hm hxm (.inl hk), hxm⟩

/-- A value stays on its branch of an instance test unless it is misjudged. -/
theorem instance_narrowing_keeps_unless_misjudged (s : Store) (v : Value) (t : Ty) (classes : List KnownClass)
    (plain : v.Plain) (wf : t.WellFormed) (fits : Ty.assignable (v.type s) t = true) :
    if t.Nameable then
      ∃ a, t.instancePart classes (v.isInstanceOf s classes) = .ok a ∧
        (Ty.assignable (v.type s) a = true ↔ ¬ Misjudged s v t classes)
    else t.instancePart classes (v.isInstanceOf s classes) = .error .tooLong := by
  have hx := plain.isAlternative_type (s := s)
  have hb := plain.type_ne_boolean (s := s)
  split
  · next hn =>
    refine ⟨_, Ty.instancePart_eq_ok.mpr ⟨hn, rfl⟩, ?_⟩
    unfold Misjudged
    by_cases hu : t = .unknown
    · subst hu
      cases hi : v.isInstanceOf s classes with
      | true =>
        have hkept : (Ty.byName .unknown).filterMap (Ty.ofInstance classes true) = [Ty.instancesOf classes] := rfl
        rw [hkept, Ty.union_single (Ty.wellFormed_instancesOf classes), plain.assignable_instancesOf_iff hi]
        simp
      | false =>
        have hkept : Ty.union ((Ty.byName .unknown).filterMap (Ty.ofInstance classes false)) = .unknown := rfl
        rw [hkept]
        exact iff_of_true (Ty.assignable_unknown _) (by simp)
    · rw [Ty.assignable_instancePart hx hb wf hu]
      cases hi : v.isInstanceOf s classes with
      | true =>
        obtain rfl | ⟨m, hm, _, hxm, htakes⟩ := Ty.exists_taker hx wf fits
        · exact absurd rfl hu
        · exact iff_of_true ⟨m, hm, plain.isInstance_taker htakes hi, hxm⟩ (by simp [hu])
      | false =>
        rw [plain.exists_taker_iff wf hu fits hi]
        simp [hu]
  · next hn => exact Ty.sortedMembers_bind_of_not_nameable hn

theorem instance_narrowing_keeps_tuple_not_integer :
    (∃ a, Ty.number.instancePart [.float] false = .ok a ∧ Ty.assignable (Ty.int 1) a = false) ∧
    ∃ a, (Ty.oneOf [.array Ty.number, .tuple [Ty.number]]).instancePart [.list] false = .ok a ∧
      Ty.assignable (.tuple [Ty.int 1]) a = true := by
  have plain : (Value.tuple [int 1]).Plain := .tuple (by simpa using .scalar _)
  have h₁ := instance_narrowing_keeps_unless_misjudged {} (int 1) Ty.number [.float] (.scalar _) (by decide) (by decide)
  have h₂ := instance_narrowing_keeps_unless_misjudged {} (.tuple [int 1])
    (.oneOf [.array Ty.number, .tuple [Ty.number]]) [.list] plain (by decide) (by decide)
  rw [if_pos (by decide +kernel)] at h₁ h₂
  obtain ⟨a₁, ha₁, hiff₁⟩ := h₁
  obtain ⟨a₂, ha₂, hiff₂⟩ := h₂
  refine ⟨⟨a₁, ha₁, ?_⟩, ⟨a₂, ha₂, hiff₂.mpr ?_⟩⟩
  · rw [Bool.eq_false_iff]
    refine fun hfits => hiff₁.mp hfits ⟨nofun, by decide, ?_⟩
    rintro es hes
    cases List.mem_singleton.mp hes
  · rintro ⟨_, _, hnone⟩
    exact absurd (hnone [Ty.number] (by simp [Ty.members])) (by decide)

end Concrete.Value

end Casewise
