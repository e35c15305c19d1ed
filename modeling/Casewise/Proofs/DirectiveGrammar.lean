import Casewise.Proofs.Brackets
import Casewise.Proofs.Lists

namespace Casewise.DirectiveParse

variable {ctx : Context} {t : Token} {ts us group : List Token} {stack rest : List TokenKind}

theorem checkBalanced_eq_ok {last : Token} : checkBalanced ctx last stack ts = .ok () ↔ due stack ts = some [] := by
  induction ts generalizing stack with
  | nil => cases stack <;> simp [checkBalanced]
  | cons t ts ih =>
    unfold checkBalanced
    rw [due_cons]
    cases hk : t.kind.closer? with
    | some c => simp [dueAfter, hk, ih]
    | none =>
      cases stack with
      | nil => by_cases hc : t.kind.isCloser <;> simp [dueAfter, hk, hc, ih]
      | cons c stack =>
        by_cases hc : t.kind.isCloser
        · by_cases he : c = t.kind <;> simp [dueAfter, hk, hc, he, ih]
        · simp [dueAfter, hk, hc, ih]

theorem exists_cutGroup_iff : (∃ a, ctx.cutGroup? ts = some a) ↔ ts ≠ [] := by
  cases ts with
  | nil => simp [Context.cutGroup?]
  | cons t ts => simp [Context.cutGroup?, List.getLast?_cons]

theorem wholeRest_eq_ok {a : ArgumentText} : wholeRest ctx ts = .ok a ↔ Balanced ts ∧ ctx.cutGroup? ts = some a := by
  cases ts with
  | nil => simp [wholeRest, Context.cutGroup?]
  | cons t ts =>
    simp only [wholeRest, Context.cutGroup?, List.head?_cons, List.getLast?_cons, bind_eq_ok, pure_eq_ok,
      balanced_iff_due, Option.some.injEq]
    exact ⟨fun ⟨_, hb, hc⟩ => ⟨checkBalanced_eq_ok.mp hb, hc⟩, fun ⟨hb, hc⟩ => ⟨(), checkBalanced_eq_ok.mpr hb, hc⟩⟩

def Wraps (ts inner : List Token) : Prop :=
  ∃ o c, o.kind = .openParen ∧ c.kind = .closeParen ∧ ts = o :: (inner ++ [c]) ∧ Balanced inner

theorem exists_snoc_cons {P : List Token → Prop} (h : ts ≠ []) :
    (∃ inner last, t :: ts = inner ++ [last] ∧ P inner) ↔ ∃ inner last, ts = inner ++ [last] ∧ P (t :: inner) := by
  constructor
  · rintro ⟨inner, last, he, hp⟩
    cases inner with
    | nil => exact absurd (List.cons.inj he).2 h
    | cons u inner =>
      obtain ⟨rfl, rfl⟩ := List.cons.inj he
      exact ⟨inner, last, rfl, hp⟩
  · rintro ⟨inner, last, rfl, hp⟩
    exact ⟨t :: inner, last, rfl, hp⟩

theorem staysOpen_iff {c : TokenKind} (h : due (stack ++ [c]) ts = some []) :
    staysOpen (stack.length + 1) ts = true ↔ ∃ inner last, ts = inner ++ [last] ∧ due stack inner = some [] := by
  induction ts generalizing stack with
  | nil => simp at h
  | cons t ts ih =>
    obtain ⟨s, hs, hr⟩ := due_cons_eq_some.mp h
    cases ts with
    | nil =>
      obtain rfl := Option.some.inj hr
      have hstack : stack = [] := by
        obtain ⟨_, _, he⟩ | ⟨_, _, he⟩ | ⟨_, he⟩ := dueAfter_cases hs
        · simp at he
        · simp at he
        · simpa using congrArg List.length he
      simp only [staysOpen, true_iff]
      exact ⟨[], t, rfl, by simp [hstack]⟩
    | cons u us =>
      rw [exists_snoc_cons (by simp), staysOpen]
      · obtain ⟨k, hk, rfl⟩ | ⟨ho, hc, rfl⟩ | ⟨hc, he⟩ := dueAfter_cases hs
        · simpa [hk, due_cons, dueAfter_opener hk] using ih (show due ((k :: stack) ++ [c]) _ = _ from hr)
        · simpa [ho, hc, due_cons, dueAfter_plain ho hc] using ih hr
        · have ho := closer?_of_isCloser hc
          cases stack with
          | nil => simp [ho, hc, due_cons, dueAfter]
          | cons k stack =>
            obtain ⟨rfl, rfl⟩ := List.cons.inj he
            simpa [ho, hc, due_cons, dueAfter_closer hc] using ih hr
      · simp

theorem isWrapped_iff (h : Balanced ts) : isWrapped ts = true ↔ ∃ inner, Wraps ts inner := by
  cases ts with
  | nil => simp [isWrapped, Wraps]
  | cons t ts =>
    by_cases ht : t.kind = .openParen
    · have hd : due ([] ++ [.closeParen]) ts = some [] := by
        have := balanced_iff_due.mp h
        rwa [due_cons, dueAfter_opener (by rw [ht]; rfl), Option.bind_some] at this
      have hs := staysOpen_iff hd
      simp only [isWrapped, ht, beq_self_eq_true, Bool.true_and, Bool.and_eq_true, List.length_nil,
        Nat.zero_add] at hs ⊢
      rw [hs]
      constructor
      · rintro ⟨hl, inner, last, rfl, hi⟩
        refine ⟨inner, t, last, ht, ?_, rfl, balanced_iff_due.mpr hi⟩
        simpa using hl
      · rintro ⟨inner, o, c, _, hc, he, hi⟩
        obtain ⟨rfl, rfl⟩ := List.cons.inj he
        exact ⟨by simp [hc], inner, c, rfl, balanced_iff_due.mp hi⟩
    · simp only [isWrapped, Wraps]
      constructor
      · intro hw
        simp [ht] at hw
      · rintro ⟨inner, o, c, ho, _, he, _⟩
        obtain ⟨rfl, _⟩ := List.cons.inj he
        exact absurd ho ht

def Unwraps (ts inner : List Token) : Prop := Wraps ts inner ∨ (inner = ts ∧ ¬ ∃ inner, Wraps ts inner)

theorem unwrappedRest_eq_ok {a : ArgumentText} : unwrappedRest ctx ts = .ok a ↔
    Balanced ts ∧ ∃ inner, Unwraps ts inner ∧ ctx.cutGroup? inner = some a := by
  simp only [unwrappedRest, bind_eq_ok, wholeRest_eq_ok]
  by_cases hw : isWrapped ts = true
  · simp only [hw, if_true]
    constructor
    · rintro ⟨whole, ⟨hb, _⟩, h⟩
      obtain ⟨inner, hi⟩ := (isWrapped_iff hb).mp hw
      obtain ⟨o, c, _, _, rfl, _⟩ := id hi
      refine ⟨hb, inner, .inl hi, ?_⟩
      simp only [List.drop_succ_cons, List.drop_zero, List.dropLast_concat] at h
      split at h
      · next b hc => rwa [← pure_eq_ok.mp h]
      · simp [throw, throwThe, MonadExceptOf.throw] at h
    · rintro ⟨hb, inner, hi, hc⟩
      have hi := hi.resolve_right fun h => h.2 ((isWrapped_iff hb).mp hw)
      obtain ⟨o, c, _, _, rfl, _⟩ := hi
      obtain ⟨whole, hwhole⟩ := exists_cutGroup_iff.mpr (List.cons_ne_nil o _)
      refine ⟨whole, ⟨hb, hwhole⟩, ?_⟩
      simp only [List.drop_succ_cons, List.drop_zero, List.dropLast_concat, hc]
      rfl
  · simp only [hw, if_false, Bool.false_eq_true, pure_eq_ok]
    constructor
    · rintro ⟨whole, ⟨hb, hc⟩, rfl⟩
      exact ⟨hb, ts, .inr ⟨rfl, (isWrapped_iff hb).not.mp hw⟩, hc⟩
    · rintro ⟨hb, inner, hi, hc⟩
      obtain ⟨rfl, _⟩ := hi.resolve_left fun h => hw ((isWrapped_iff hb).mpr ⟨inner, h⟩)
      exact ⟨a, ⟨hb, hc⟩, rfl⟩

theorem Unwraps.ne_nil_iff {inner : List Token} (h : Unwraps ts inner) :
    inner ≠ [] ↔ ts ≠ [] ∧ ts.map Token.kind ≠ [.openParen, .closeParen] := by
  obtain ⟨o, c, ho, hc, rfl, _⟩ | ⟨rfl, hn⟩ := h
  · cases inner <;> simp [ho, hc]
  · refine ⟨fun h => ⟨h, fun hk => hn ⟨[], ?_⟩⟩, And.left⟩
    obtain ⟨o, us, rfl, ho, hk⟩ := List.map_eq_cons_iff.mp hk
    obtain ⟨c, us, rfl, hc, hk⟩ := List.map_eq_cons_iff.mp hk
    obtain rfl := List.map_eq_nil_iff.mp hk
    exact ⟨o, c, ho, hc, rfl, .nil⟩

theorem splitArguments_cons {r : List (List Token) × List Token} : splitArguments ctx stack group (t :: ts) = .ok r ↔
    (stack = [] ∧ t.kind = .closeParen ∧ r = (if group.isEmpty then [] else [group.reverse], ts)) ∨
    (stack = [] ∧ t.kind = .comma ∧ group ≠ [] ∧
      ∃ gs rest, splitArguments ctx [] [] ts = .ok (gs, rest) ∧ r = (group.reverse :: gs, rest)) ∨
    ((stack = [] → t.kind ≠ .comma ∧ t.kind ≠ .closeParen) ∧
      ∃ s, dueAfter stack t = some s ∧ splitArguments ctx s (t :: group) ts = .ok r) := by
  rw [splitArguments.eq_def]
  cases stack with
  | nil =>
    by_cases hp : t.kind = .closeParen
    · simpa [hp] using eq_comm
    by_cases hc : t.kind = .comma
    · by_cases hg : group = []
      · simp [hc, hg]
      · simp [hc, hg, bind_eq_ok, pure_eq_ok, eq_comm (a := r), -bind_pure_comp]
    cases hk : t.kind.closer? with
    | some k => simp [hp, hc, hk, dueAfter]
    | none => by_cases hi : t.kind.isCloser <;> simp [hp, hc, hk, hi, dueAfter]
  | cons k stack =>
    cases hk : t.kind.closer? with
    | some k => simp [hk, dueAfter]
    | none =>
      by_cases hi : t.kind.isCloser
      · by_cases he : k = t.kind <;> simp [hk, hi, he, dueAfter]
      · simp [hk, hi, dueAfter]

theorem splitArguments_sound {gs : List (List Token)} {after : List Token}
    (h : splitArguments ctx stack group ts = .ok (gs, after)) (hd : due [] group.reverse = some stack)
    (hu : Unbroken [] group.reverse) : ∃ inner c, c.kind = .closeParen ∧ ts = inner ++ c :: after ∧
      Separated gs (group.reverse ++ inner) ∧ ∀ g ∈ gs, IsGroup g := by
  induction ts generalizing stack group gs with
  | nil => simp [splitArguments] at h
  | cons t ts ih =>
    have hgroup (hn : group ≠ []) (hs : stack = []) : IsGroup group.reverse :=
      isGroup_iff.mpr ⟨by simpa using hn, hs ▸ hd, hu⟩
    obtain ⟨hs, ht, he⟩ | ⟨hs, ht, hg, gs', rest, hr, he⟩ | ⟨ht, s, hs, hr⟩ := splitArguments_cons.mp h
    · obtain ⟨rfl, rfl⟩ := Prod.mk.inj he
      refine ⟨[], t, ht, rfl, ?_⟩
      by_cases hg : group = []
      · simp [hg, Separated.nil]
      · simpa [hg] using ⟨Separated.last, hgroup hg hs⟩
    · obtain ⟨rfl, rfl⟩ := Prod.mk.inj he
      obtain ⟨inner, c, hc, rfl, hsep, hgs⟩ := ih hr rfl (by simp [Unbroken])
      exact ⟨t :: inner, c, hc, rfl, .cons ht hsep, List.forall_mem_cons.mpr ⟨hgroup hg hs, hgs⟩⟩
    · have hd' : due [] (t :: group).reverse = some s := by rw [List.reverse_cons, due_snoc hd, hs]
      have hu' : Unbroken [] (t :: group).reverse := by
        rw [List.reverse_cons]
        exact hu.snoc fun hn => ht (Option.some.inj (hd.symm.trans hn))
      obtain ⟨inner, c, hc, rfl, hsep, hgs⟩ := ih hr hd' hu'
      exact ⟨t :: inner, c, hc, rfl, by simpa using hsep, hgs⟩

theorem splitArguments_append {g : List Token} {r : List (List Token) × List Token} (hd : due stack g = some rest)
    (hu : Unbroken stack g) (h : splitArguments ctx rest (g.reverse ++ group) ts = .ok r) :
    splitArguments ctx stack group (g ++ ts) = .ok r := by
  induction g generalizing stack group with
  | nil =>
    obtain rfl := Option.some.inj hd
    exact h
  | cons t g ih =>
    obtain ⟨s, hs, hr⟩ := due_cons_eq_some.mp hd
    have ht : stack = [] → t.kind ≠ .comma ∧ t.kind ≠ .closeParen := fun hn => hu [] t g rfl (by simp [hn])
    exact splitArguments_cons.mpr (.inr (.inr ⟨ht, s, hs, ih hr (hu.tail hs) (by simpa using h)⟩))

theorem splitArguments_complete {gs : List (List Token)} {inner after : List Token} {c : Token}
    (h : Separated gs inner) (hg : ∀ g ∈ gs, IsGroup g) (hc : c.kind = .closeParen) :
    splitArguments ctx [] [] (inner ++ c :: after) = .ok (gs, after) := by
  induction h with
  | nil => exact splitArguments_cons.mpr (.inl ⟨rfl, hc, rfl⟩)
  | @last g =>
    obtain ⟨hn, hd, hu⟩ := isGroup_iff.mp (hg g (by simp))
    apply splitArguments_append hd hu
    exact splitArguments_cons.mpr (.inl ⟨rfl, hc, by simp [hn]⟩)
  | @cons g comma gs ts hk _ ih =>
    obtain ⟨hg, hgs⟩ := List.forall_mem_cons.mp hg
    obtain ⟨hn, hd, hu⟩ := isGroup_iff.mp hg
    rw [List.append_assoc]
    apply splitArguments_append hd hu
    exact splitArguments_cons.mpr (.inr (.inl ⟨rfl, hk, by simpa using hn, gs, after, ih hgs, by simp⟩))

theorem splitArguments_eq_ok {gs : List (List Token)} {after : List Token} :
    splitArguments ctx [] [] ts = .ok (gs, after) ↔
      ∃ inner c, c.kind = .closeParen ∧ ts = inner ++ c :: after ∧ Separated gs inner ∧ ∀ g ∈ gs, IsGroup g := by
  constructor
  · exact fun h => splitArguments_sound h rfl (by simp [Unbroken])
  · rintro ⟨inner, c, hc, rfl, hs, hg⟩
    exact splitArguments_complete hs hg hc

inductive CaseForm : Option String → List (List Token) → List Token → Prop
  | unlabelled {o c : Token} {gs : List (List Token)} {inner : List Token} (ho : o.kind = .openParen)
      (hc : c.kind = .closeParen) (hs : Separated gs inner) (hg : ∀ g ∈ gs, IsGroup g) :
      CaseForm none gs (o :: (inner ++ [c]))
  | labelled {l : Token} {gs : List (List Token)} {ts : List Token} (hl : l.kind = .string)
      (h : CaseForm none gs ts) : CaseForm (some l.text) gs (l :: ts)

def Cuts (ctx : Context) (gs : List (List Token)) (args : List ArgumentText) : Prop :=
  gs.map ctx.cutGroup? = args.map some

theorem cuts_iff {gs : List (List Token)} {args : List ArgumentText} (h : ∀ g ∈ gs, g ≠ []) :
    Cuts ctx gs args ↔ gs.filterMap ctx.cutGroup? = args := by
  unfold Cuts
  induction gs generalizing args with
  | nil => cases args <;> simp
  | cons g gs ih =>
    obtain ⟨hg, hgs⟩ := List.forall_mem_cons.mp h
    obtain ⟨a, ha⟩ : ∃ a, ctx.cutGroup? g = some a := exists_cutGroup_iff.mpr hg
    rw [List.filterMap_cons_some ha, List.map_cons, ha]
    cases args with
    | nil => simp
    | cons b args => simp [ih hgs]

theorem exists_cuts {gs : List (List Token)} (h : ∀ g ∈ gs, IsGroup g) : ∃ args, Cuts ctx gs args :=
  ⟨_, (cuts_iff fun g hg => (h g hg).nonempty).mpr rfl⟩

theorem caseForm_none_iff {gs : List (List Token)} : CaseForm none gs ts ↔
    ∃ o inner c, o.kind = .openParen ∧ c.kind = .closeParen ∧ ts = o :: (inner ++ [c]) ∧ Separated gs inner ∧
      ∀ g ∈ gs, IsGroup g := by
  constructor
  · intro h
    cases h with
    | unlabelled ho hc hs hg => exact ⟨_, _, _, ho, hc, rfl, hs, hg⟩
  · rintro ⟨o, inner, c, ho, hc, rfl, hs, hg⟩
    exact .unlabelled ho hc hs hg

theorem argumentList_eq_ok {args : List ArgumentText} : argumentList ctx ts = .ok (args, []) ↔
    ∃ gs, CaseForm none gs ts ∧ Cuts ctx gs args := by
  simp only [caseForm_none_iff]
  cases ts with
  | nil => simp [argumentList]
  | cons o ts =>
    by_cases ho : o.kind = .openParen
    · simp only [argumentList, ho, if_true, bind_eq_ok, pure_eq_ok, Prod.exists, Prod.mk.injEq]
      constructor
      · rintro ⟨gs, after, h, hargs, rfl⟩
        obtain ⟨inner, c, hc, rfl, hs, hg⟩ := splitArguments_eq_ok.mp h
        exact ⟨gs, ⟨o, inner, c, ho, hc, rfl, hs, hg⟩, (cuts_iff fun g hg' => (hg g hg').nonempty).mpr hargs⟩
      · rintro ⟨gs, ⟨o', inner, c, _, hc, he, hs, hg⟩, hargs⟩
        obtain ⟨rfl, rfl⟩ := List.cons.inj he
        refine ⟨gs, [], splitArguments_eq_ok.mpr ⟨inner, c, hc, rfl, hs, hg⟩, ?_, rfl⟩
        exact (cuts_iff fun g hg' => (hg g hg').nonempty).mp hargs
    · simp only [argumentList, ho, if_false]
      refine iff_of_false nofun ?_
      rintro ⟨gs, ⟨o', inner, c, ho', _, he, _⟩, _⟩
      obtain ⟨rfl, _⟩ := List.cons.inj he
      exact ho ho'

theorem expectEnd_eq_ok : expectEnd ctx ts = .ok () ↔ ts = [] := by
  cases ts <;> simp [expectEnd]

theorem caseLike_eq_ok {label : Option String} {args : List ArgumentText} : caseLike ctx ts = .ok (label, args) ↔
    ∃ gs, CaseForm label gs ts ∧ Cuts ctx gs args := by
  have hparts : caseLike ctx ts = .ok (label, args) ↔
      (optionalLabel ts).1 = label ∧ argumentList ctx (optionalLabel ts).2 = .ok (args, []) := by
    simp only [caseLike, bind_eq_ok, pure_eq_ok, Prod.exists, Prod.mk.injEq]
    constructor
    · rintro ⟨as, rest, ha, _, hr, hl, rfl⟩
      exact ⟨hl, expectEnd_eq_ok.mp hr ▸ ha⟩
    · rintro ⟨hl, ha⟩
      exact ⟨args, [], ha, (), rfl, hl, rfl⟩
  rw [hparts, argumentList_eq_ok]
  constructor
  · rintro ⟨rfl, gs, hf, hc⟩
    refine ⟨gs, ?_, hc⟩
    cases ts with
    | nil => exact hf
    | cons t ts =>
      by_cases ht : t.kind = .string
      · simp only [optionalLabel, ht, if_true] at hf ⊢
        exact .labelled ht hf
      · simpa only [optionalLabel, ht, if_false] using hf
  · rintro ⟨gs, hf, hc⟩
    cases hf with
    | unlabelled ho hc' hs hg =>
      simp only [optionalLabel, ho, reduceCtorEq, if_false, true_and]
      exact ⟨gs, .unlabelled ho hc' hs hg, hc⟩
    | labelled hl hf =>
      simp only [optionalLabel, hl, if_true, true_and]
      exact ⟨gs, hf, hc⟩

inductive DottedNames : List String → List Token → Prop
  | nil : DottedNames [] []
  | cons {d n : Token} {names : List String} {ts : List Token} (hd : d.kind = .dot) (hn : n.kind = .identifier)
      (after : DottedNames names ts) : DottedNames (n.text :: names) (d :: n :: ts)

theorem dottedRest_sound {names : List String} {after : List Token} (h : dottedRest ctx ts = .ok (names, after)) :
    ∃ path, DottedNames names path ∧ ts = path ++ after := by
  have stop {names : List String} (us : List Token)
      (h : (Except.ok ([], us) : Except Failure (List String × List Token)) = .ok (names, after)) :
      ∃ path, DottedNames names path ∧ us = path ++ after := by
    obtain ⟨rfl, rfl⟩ := Prod.mk.inj (Except.ok.inj h)
    exact ⟨[], .nil, rfl⟩
  induction ts using dottedRest.induct generalizing names with
  | case1 => exact stop [] h
  | case2 t ht => simp [dottedRest, ht] at h
  | case3 t ht => exact stop [t] (by simpa [dottedRest, ht] using h)
  | case4 d n ts hd hn ih =>
    simp only [dottedRest, hd, hn, if_true, bind_eq_ok, pure_eq_ok, Prod.exists, Prod.mk.injEq] at h
    obtain ⟨more, rest, hr, rfl, rfl⟩ := h
    obtain ⟨path, hp, rfl⟩ := ih hr
    exact ⟨d :: n :: path, .cons hd hn hp, rfl⟩
  | case5 d n ts hd hn => simp [dottedRest, hd, hn] at h
  | case6 t n ts ht => exact stop (t :: n :: ts) (by simpa [dottedRest, ht] using h)

theorem dottedRest_complete {names : List String} {path after : List Token} {a : Token} (h : DottedNames names path)
    (ha : a.kind ≠ .dot) : dottedRest ctx (path ++ a :: after) = .ok (names, a :: after) := by
  induction h with
  | nil => cases after <;> simp [dottedRest, ha]
  | cons hd hn _ ih =>
    simp only [List.cons_append, dottedRest, hd, hn, if_true, ih]
    rfl

theorem dottedName_eq_ok {symbol : String} {a : Token} {after : List Token} (ha : a.kind = .assign) :
    dottedName ctx ts = .ok (symbol, a :: after) ↔ ∃ first names path, first.kind = .identifier ∧
      DottedNames names path ∧ ts = first :: (path ++ a :: after) ∧ symbol = ".".intercalate (first.text :: names) := by
  cases ts with
  | nil => simp [dottedName]
  | cons t ts =>
    by_cases ht : t.kind = .identifier
    · simp only [dottedName, ht, if_true, bind_eq_ok, pure_eq_ok, Prod.exists, Prod.mk.injEq]
      constructor
      · rintro ⟨names, rest, h, rfl, rfl⟩
        obtain ⟨path, hp, rfl⟩ := dottedRest_sound h
        exact ⟨t, names, path, ht, hp, rfl, rfl⟩
      · rintro ⟨first, names, path, _, hp, he, rfl⟩
        obtain ⟨rfl, rfl⟩ := List.cons.inj he
        exact ⟨names, a :: after, dottedRest_complete hp (by simp [ha]), rfl, rfl⟩
    · simp only [dottedName, ht, if_false]
      refine iff_of_false nofun ?_
      rintro ⟨first, names, path, hf, _, he, _⟩
      obtain ⟨rfl, _⟩ := List.cons.inj he
      exact ht hf

/-- The form of a directive of each kind: its name, the groups of its arguments and the tokens of its payload. -/
inductive Form : DirectiveKind → List Token → Option String → Option (List (List Token)) → Option (List Token) → Prop
  | described {kind : DirectiveKind} {label : Option String} {gs : List (List Token)} {ts : List Token}
      (hk : kind = .oneCase ∨ kind = .sample ∨ kind = .skip) (h : CaseForm label gs ts) :
      Form kind ts label (some gs) none
  | skipped {ts : List Token} (hs : skipsCase ts = false) (hb : Balanced ts) :
      Form .skip ts none none (if ts.isEmpty then none else some ts)
  | mock {first a : Token} {names : List String} {path rest : List Token} (hf : first.kind = .identifier)
      (hp : DottedNames names path) (ha : a.kind = .assign) (hn : rest ≠ []) (hb : Balanced rest) :
      Form .mock (first :: (path ++ a :: rest)) (some (".".intercalate (first.text :: names))) none (some rest)
  | pure : Form .pure [] none none none
  | returns {ts inner : List Token} (hn : ts ≠ []) (hb : Balanced ts)
      (he : ts.map Token.kind ≠ [.openParen, .closeParen]) (hu : Unwraps ts inner) :
      Form .returns ts none none (some inner)

structure Reads (ctx : Context) (ts : List Token) (d : Directive) : Prop where
  kind : d.kind = ctx.kind
  span : d.span = ctx.span
  parts : ∃ groups payload, Form ctx.kind ts d.name? groups payload ∧
    groups.map (List.map ctx.cutGroup?) = d.arguments?.map (List.map some) ∧
    payload.bind ctx.cutGroup? = d.payload?

theorem exists_described {kind : DirectiveKind} {label : Option String} {args : List ArgumentText}
    (hk : kind = .oneCase ∨ kind = .sample ∨ kind = .skip) (h : caseLike ctx ts = .ok (label, args)) :
    ∃ groups payload, Form kind ts label groups payload ∧
      groups.map (List.map ctx.cutGroup?) = some (args.map some) ∧ payload.bind ctx.cutGroup? = none := by
  obtain ⟨gs, hf, hc⟩ := caseLike_eq_ok.mp h
  exact ⟨some gs, none, .described hk hf, congrArg some hc, rfl⟩

theorem body_mock_eq_ok {b : DirectiveBody} (hk : ctx.kind = .mock) : body ctx ts = .ok b ↔
    ∃ symbol a rest p, a.kind = .assign ∧ dottedName ctx ts = .ok (symbol, a :: rest) ∧ rest ≠ [] ∧
      wholeRest ctx rest = .ok p ∧ b = .mock symbol p := by
  simp only [body, hk, bind_eq_ok, Prod.exists]
  constructor
  · rintro ⟨symbol, after, hd, h⟩
    cases after with
    | nil => cases h
    | cons a rest =>
      by_cases ha : a.kind = .assign
      · cases rest with
        | nil =>
          simp only [ha, ne_eq, not_true_eq_false, if_false, List.isEmpty_nil, if_true] at h
          cases h
        | cons r rest =>
          simp only [ha, ne_eq, not_true_eq_false, if_false, List.isEmpty_cons, Bool.false_eq_true, bind_eq_ok,
            pure_eq_ok] at h
          obtain ⟨p, hp, rfl⟩ := h
          exact ⟨symbol, a, r :: rest, p, ha, hd, by simp, hp, rfl⟩
      · simp only [ha, ne_eq, not_false_eq_true, if_true] at h
        cases h
  · rintro ⟨symbol, a, rest, p, ha, hd, hn, hp, rfl⟩
    refine ⟨symbol, a :: rest, hd, ?_⟩
    simp only [ha, ne_eq, not_true_eq_false, if_false, List.isEmpty_iff, hn, hp]
    rfl

theorem reads_of_body {b : DirectiveBody} (h : body ctx ts = .ok b) : Reads ctx ts ⟨ctx.span, b⟩ := by
  obtain ⟨kind, span, text, base⟩ := ctx
  cases kind with
  | oneCase =>
    simp only [body, bind_eq_ok, pure_eq_ok, Prod.exists] at h
    obtain ⟨label, args, hc, rfl⟩ := h
    exact ⟨rfl, rfl, exists_described (.inl rfl) hc⟩
  | sample =>
    simp only [body, bind_eq_ok, pure_eq_ok, Prod.exists] at h
    obtain ⟨label, args, hc, rfl⟩ := h
    exact ⟨rfl, rfl, exists_described (.inr (.inl rfl)) hc⟩
  | skip =>
    by_cases hs : skipsCase ts = true
    · simp only [body, hs, if_true, bind_eq_ok, pure_eq_ok, Prod.exists] at h
      obtain ⟨label, args, hc, rfl⟩ := h
      exact ⟨rfl, rfl, exists_described (.inr (.inr rfl)) hc⟩
    · have hs : skipsCase ts = false := by simpa using hs
      cases ts with
      | nil =>
        obtain rfl := Except.ok.inj h
        exact ⟨rfl, rfl, none, none, .skipped hs .nil, rfl, rfl⟩
      | cons t ts =>
        simp only [body, hs, Bool.false_eq_true, if_false, List.isEmpty_cons, bind_eq_ok, pure_eq_ok,
          wholeRest_eq_ok] at h
        obtain ⟨a, ⟨hb, hc⟩, rfl⟩ := h
        exact ⟨rfl, rfl, none, some (t :: ts), .skipped hs hb, rfl, hc⟩
  | mock =>
    obtain ⟨symbol, a, rest, p, ha, hd, hn, hp, rfl⟩ := (body_mock_eq_ok rfl).mp h
    obtain ⟨first, names, path, hf, hpath, rfl, rfl⟩ := (dottedName_eq_ok ha).mp hd
    obtain ⟨hb, hc⟩ := wholeRest_eq_ok.mp hp
    exact ⟨rfl, rfl, none, some rest, .mock hf hpath ha hn hb, rfl, hc⟩
  | pure =>
    simp only [body, bind_eq_ok, pure_eq_ok] at h
    obtain ⟨_, hn, rfl⟩ := h
    obtain rfl := expectEnd_eq_ok.mp hn
    exact ⟨rfl, rfl, none, none, .pure, rfl, rfl⟩
  | returns =>
    cases ts with
    | nil => exact nomatch h
    | cons t ts =>
      simp only [body, List.isEmpty_cons, Bool.false_eq_true, if_false, bind_eq_ok, pure_eq_ok,
        unwrappedRest_eq_ok] at h
      obtain ⟨a, ⟨hb, inner, hu, hc⟩, rfl⟩ := h
      have hn : inner ≠ [] := exists_cutGroup_iff.mp ⟨a, hc⟩
      obtain ⟨hts, he⟩ := hu.ne_nil_iff.mp hn
      exact ⟨rfl, rfl, none, some inner, .returns hts hb he hu, rfl, hc⟩

theorem skipsCase_of_caseForm {label : Option String} {gs : List (List Token)} (h : CaseForm label gs ts) :
    skipsCase ts = true := by
  cases h with
  | unlabelled ho => simp [skipsCase, ho]
  | labelled hl => simp [skipsCase, hl]

theorem body_of_reads {b : DirectiveBody} (h : Reads ctx ts ⟨ctx.span, b⟩) : body ctx ts = .ok b := by
  obtain ⟨kind, span, text, base⟩ := ctx
  obtain ⟨hk, -, groups, payload, hf, hg, hp⟩ := h
  cases b
  all_goals
    dsimp only [Directive.kind, Directive.name?, Directive.arguments?, Directive.payload?] at hk hf hg hp
    subst hk
  case oneCase label args =>
    cases hf with
    | described _ hf => exact bind_eq_ok.mpr ⟨(label, args), caseLike_eq_ok.mpr ⟨_, hf, Option.some.inj hg⟩, rfl⟩
  case sample label args =>
    cases hf with
    | described _ hf => exact bind_eq_ok.mpr ⟨(label, args), caseLike_eq_ok.mpr ⟨_, hf, Option.some.inj hg⟩, rfl⟩
  case skipCase label args =>
    cases hf with
    | described _ hf =>
      simp only [body, skipsCase_of_caseForm hf, if_true]
      exact bind_eq_ok.mpr ⟨(label, args), caseLike_eq_ok.mpr ⟨_, hf, Option.some.inj hg⟩, rfl⟩
    | skipped => simp at hg
  case skipFunction declared =>
    cases hf with
    | described => simp at hg
    | skipped hs hb =>
      cases ts with
      | nil =>
        obtain rfl := hp
        rfl
      | cons t ts =>
        simp only [body, hs, Bool.false_eq_true, if_false, List.isEmpty_cons]
        obtain ⟨a, ha⟩ := exists_cutGroup_iff.mpr (List.cons_ne_nil t ts)
        obtain rfl : declared = some a := hp.symm.trans ha
        exact bind_eq_ok.mpr ⟨a, wholeRest_eq_ok.mpr ⟨hb, hp⟩, rfl⟩
  case mock symbol p =>
    cases hf with
    | described hk => simp at hk
    | mock hf hpath ha hn hb =>
      exact (body_mock_eq_ok rfl).mpr ⟨_, _, _, p, ha, (dottedName_eq_ok ha).mpr ⟨_, _, _, hf, hpath, rfl, rfl⟩, hn,
        wholeRest_eq_ok.mpr ⟨hb, hp⟩, rfl⟩
  case pure =>
    cases hf with
    | described hk => simp at hk
    | pure => rfl
  case returns p =>
    cases hf with
    | described hk => simp at hk
    | returns hn hb _ hu =>
      simp only [body, List.isEmpty_iff, hn, if_false]
      exact bind_eq_ok.mpr ⟨p, unwrappedRest_eq_ok.mpr ⟨hb, _, hu, hp⟩, rfl⟩

theorem CaseForm.isGroup {label : Option String} {gs : List (List Token)} (h : CaseForm label gs ts) :
    ∀ g ∈ gs, IsGroup g := by
  induction h with
  | unlabelled _ _ _ hg => exact hg
  | labelled _ _ ih => exact ih

theorem exists_reads {name : Option String} {groups : Option (List (List Token))} {payload : Option (List Token)}
    (h : Form ctx.kind ts name groups payload) : ∃ b, Reads ctx ts ⟨ctx.span, b⟩ := by
  obtain ⟨kind, span, text, base⟩ := ctx
  cases h with
  | @described _ _ gs _ hk hf =>
    obtain ⟨args, hc⟩ := exists_cuts hf.isGroup
    have hl : caseLike ⟨kind, span, text, base⟩ ts = .ok (name, args) := caseLike_eq_ok.mpr ⟨gs, hf, hc⟩
    have hparts := exists_described hk hl
    rcases hk with hk | hk | hk
    · exact ⟨.oneCase name args, hk.symm, rfl, hparts⟩
    · exact ⟨.sample name args, hk.symm, rfl, hparts⟩
    · exact ⟨.skipCase name args, hk.symm, rfl, hparts⟩
  | skipped hs hb => exact ⟨.skipFunction _, rfl, rfl, none, _, .skipped hs hb, rfl, rfl⟩
  | mock hf hp ha hn hb =>
    obtain ⟨a, hc⟩ := exists_cutGroup_iff.mpr hn
    exact ⟨.mock _ a, rfl, rfl, none, _, .mock hf hp ha hn hb, rfl, hc⟩
  | pure => exact ⟨.pure, rfl, rfl, none, none, .pure, rfl, rfl⟩
  | returns hn hb he hu =>
    obtain ⟨a, hc⟩ := exists_cutGroup_iff.mpr (hu.ne_nil_iff.mpr ⟨hn, he⟩)
    exact ⟨.returns a, rfl, rfl, none, _, .returns hn hb he hu, rfl, hc⟩

end Casewise.DirectiveParse

namespace Casewise.Directive

open DirectiveParse

theorem parse_eq_ok {kind : DirectiveKind} {text : List Char} {span : Span} {base : Int} {d : Directive} :
    parse kind text span base = .ok d ↔
      (Lexer.lex base text).errors = [] ∧ Reads ⟨kind, span, text, base⟩ (Lexer.lex base text).tokens d := by
  obtain ⟨dspan, b⟩ := d
  unfold parse
  dsimp only
  by_cases he : (Lexer.lex base text).errors = []
  · simp only [he, List.isEmpty_nil, if_true, true_and]
    constructor
    · intro h
      split at h
      · next c hc =>
        obtain ⟨rfl, rfl⟩ := Directive.mk.inj (Except.ok.inj h)
        exact reads_of_body hc
      · cases h
    · intro h
      obtain rfl := h.span
      rw [body_of_reads h]
  · simp [he]

/-- A text is read as a directive of a kind exactly when its tokens have the form of the kind. The arguments of the
directive are then the groups of tokens between the commas, and its payload the tokens that the form names. -/
theorem parse_accepts_exactly_grammar (kind : DirectiveKind) (text : List Char) (span : Span) (base : Int) :
    ((∃ d, parse kind text span base = .ok d) ↔ (Lexer.lex base text).errors = [] ∧
      ∃ name groups payload, Form kind (Lexer.lex base text).tokens name groups payload) ∧
    ∀ d, parse kind text span base = .ok d ↔
      (Lexer.lex base text).errors = [] ∧ Reads ⟨kind, span, text, base⟩ (Lexer.lex base text).tokens d := by
  refine ⟨⟨?_, ?_⟩, fun d => parse_eq_ok⟩
  · rintro ⟨d, h⟩
    obtain ⟨he, hr⟩ := parse_eq_ok.mp h
    obtain ⟨groups, payload, hf, _⟩ := hr.parts
    exact ⟨he, d.name?, groups, payload, hf⟩
  · rintro ⟨he, name, groups, payload, hf⟩
    obtain ⟨b, hb⟩ : ∃ b, Reads ⟨kind, span, text, base⟩ _ ⟨span, b⟩ := exists_reads hf
    exact ⟨⟨span, b⟩, parse_eq_ok.mpr ⟨he, hb⟩⟩

end Casewise.Directive
