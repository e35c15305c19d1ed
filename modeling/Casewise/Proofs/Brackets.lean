import Casewise.Directive.Parse
import Mathlib.Data.List.Basic

namespace Casewise

variable {t : Token} {ts us : List Token} {stack rest : List TokenKind}

inductive Balanced : List Token → Prop
  | nil : Balanced []
  | plain {t : Token} {ts : List Token} (opens : t.kind.closer? = none) (closes : t.kind.isCloser = false)
      (after : Balanced ts) : Balanced (t :: ts)
  | bracket {o c : Token} {inner ts : List Token} (pair : o.kind.closer? = some c.kind) (inside : Balanced inner)
      (after : Balanced ts) : Balanced (o :: (inner ++ c :: ts))

def dueAfter (stack : List TokenKind) (t : Token) : Option (List TokenKind) :=
  match t.kind.closer? with
  | some c => some (c :: stack)
  | none => if t.kind.isCloser then (if stack.head? = some t.kind then some stack.tail else none) else some stack

def due (stack : List TokenKind) (ts : List Token) : Option (List TokenKind) := ts.foldlM dueAfter stack

theorem isCloser_of_closer? {k c : TokenKind} (h : k.closer? = some c) : c.isCloser = true ∧ c.closer? = none := by
  cases k <;> simp only [TokenKind.closer?, Option.some.injEq, reduceCtorEq] at h
  all_goals subst h; exact ⟨rfl, rfl⟩

theorem closer?_of_isCloser {k : TokenKind} (h : k.isCloser = true) : k.closer? = none := by
  cases k <;> simp_all [TokenKind.closer?, TokenKind.isCloser]

theorem dueAfter_opener {c : TokenKind} (h : t.kind.closer? = some c) : dueAfter stack t = some (c :: stack) := by
  simp [dueAfter, h]

theorem dueAfter_plain (ho : t.kind.closer? = none) (hc : t.kind.isCloser = false) :
    dueAfter stack t = some stack := by
  simp [dueAfter, ho, hc]

theorem dueAfter_closer (h : t.kind.isCloser = true) : dueAfter (t.kind :: stack) t = some stack := by
  simp [dueAfter, closer?_of_isCloser h, h]

theorem dueAfter_cases (h : dueAfter stack t = some rest) :
    (∃ c, t.kind.closer? = some c ∧ rest = c :: stack) ∨
    (t.kind.closer? = none ∧ t.kind.isCloser = false ∧ rest = stack) ∨
    (t.kind.isCloser = true ∧ stack = t.kind :: rest) := by
  unfold dueAfter at h
  split at h
  · next c hc => exact .inl ⟨c, hc, (Option.some.inj h).symm⟩
  · next ho =>
    split at h
    · next hc =>
      split at h
      · next hs =>
        obtain ⟨s, rfl⟩ := List.head?_eq_some_iff.mp hs
        exact .inr (.inr ⟨hc, by rw [← Option.some.inj h, List.tail_cons]⟩)
      · simp at h
    · next hc => exact .inr (.inl ⟨ho, by simpa using hc, (Option.some.inj h).symm⟩)

@[simp] theorem due_nil : due stack [] = some stack := rfl

theorem due_cons : due stack (t :: ts) = (dueAfter stack t).bind fun s => due s ts := by
  simp [due]

theorem due_append : due stack (ts ++ us) = (due stack ts).bind fun s => due s us := by
  simp [due]

theorem due_cons_eq_some : due stack (t :: ts) = some rest ↔
    ∃ s, dueAfter stack t = some s ∧ due s ts = some rest := by
  rw [due_cons, Option.bind_eq_some_iff]

theorem due_snoc (h : due stack ts = some rest) : due stack (ts ++ [t]) = dueAfter rest t := by
  simp [due_append, h, due_cons]

theorem Balanced.due (h : Balanced ts) (stack : List TokenKind) : due stack ts = some stack := by
  induction h generalizing stack with
  | nil => rfl
  | plain ho hc _ ih => exact due_cons_eq_some.mpr ⟨stack, dueAfter_plain ho hc, ih stack⟩
  | @bracket o c inner ts hp _ _ ihi iha =>
    refine due_cons_eq_some.mpr ⟨c.kind :: stack, dueAfter_opener hp, ?_⟩
    rw [due_append, ihi, Option.bind_some, due_cons_eq_some]
    exact ⟨stack, dueAfter_closer (isCloser_of_closer? hp).1, iha stack⟩

theorem Balanced.append (ht : Balanced ts) (hu : Balanced us) : Balanced (ts ++ us) := by
  induction ht with
  | nil => exact hu
  | plain ho hc _ ih => exact .plain ho hc ih
  | bracket hp hi _ _ ih =>
    simp only [List.cons_append, List.append_assoc]
    exact .bracket hp hi ih

inductive Closes : List TokenKind → List Token → Prop
  | done {ts : List Token} (after : Balanced ts) : Closes [] ts
  | close {stack : List TokenKind} {c : Token} {inner ts : List Token} (before : Balanced inner)
      (after : Closes stack ts) : Closes (c.kind :: stack) (inner ++ c :: ts)

theorem Closes.prepend {b : List Token} (hb : Balanced b) (h : Closes stack ts) : Closes stack (b ++ ts) := by
  cases h with
  | done h => exact .done (hb.append h)
  | close hi h =>
    rw [← List.append_assoc]
    exact .close (hb.append hi) h

theorem closes_of_due (h : due stack ts = some []) : Closes stack ts := by
  induction ts generalizing stack with
  | nil =>
    obtain rfl := Option.some.inj h
    exact .done .nil
  | cons t ts ih =>
    obtain ⟨s, hs, hr⟩ := due_cons_eq_some.mp h
    have after := ih hr
    obtain ⟨c, hc, rfl⟩ | ⟨ho, hc, rfl⟩ | ⟨hc, rfl⟩ := dueAfter_cases hs
    · -- the opener, what it holds and its closer stand before the rest
      cases after with
      | @close _ c inner ts hi after =>
        have hb : Balanced (t :: (inner ++ [c])) := .bracket hc hi .nil
        simpa using after.prepend hb
    · exact after.prepend (.plain ho hc .nil)
    · exact .close .nil after

theorem balanced_iff_due : Balanced ts ↔ due [] ts = some [] := by
  constructor
  · exact fun h => h.due []
  · intro h
    cases closes_of_due h with
    | done h => exact h

def TopLevel (ts : List Token) (t : Token) : Prop := ∃ before after, ts = before ++ t :: after ∧ Balanced before

structure IsGroup (g : List Token) : Prop where
  nonempty : g ≠ []
  balanced : Balanced g
  unsplit : ∀ t, TopLevel g t → t.kind ≠ .comma ∧ t.kind ≠ .closeParen

inductive Separated : List (List Token) → List Token → Prop
  | nil : Separated [] []
  | last {g : List Token} : Separated [g] g
  | cons {g : List Token} {comma : Token} {gs : List (List Token)} {ts : List Token} (hc : comma.kind = .comma)
      (after : Separated gs ts) : Separated (g :: gs) (g ++ comma :: ts)

theorem separated_nil : Separated [] ts ↔ ts = [] := by
  constructor
  · intro h
    cases h
    rfl
  · rintro rfl
    exact .nil

theorem separated_cons {g : List Token} {gs : List (List Token)} : Separated (g :: gs) ts ↔
    (gs = [] ∧ ts = g) ∨ ∃ comma us, comma.kind = .comma ∧ ts = g ++ comma :: us ∧ Separated gs us := by
  constructor
  · intro h
    cases h with
    | last => exact .inl ⟨rfl, rfl⟩
    | cons hc after => exact .inr ⟨_, _, hc, rfl, after⟩
  · rintro (⟨rfl, rfl⟩ | ⟨comma, us, hc, rfl, after⟩)
    · exact .last
    · exact .cons hc after

theorem Separated.contiguous {gs : List (List Token)} (h : Separated gs ts) : ∀ g ∈ gs, g <:+: ts := by
  induction h with
  | nil => simp
  | last => simp
  | @cons g comma gs ts _ _ ih =>
    refine List.forall_mem_cons.mpr ⟨⟨[], comma :: ts, rfl⟩, fun g' hg' => ?_⟩
    exact (ih g' hg').trans ⟨g ++ [comma], [], by simp⟩

def Unbroken (stack : List TokenKind) (ts : List Token) : Prop :=
  ∀ before t after, ts = before ++ t :: after → due stack before = some [] →
    t.kind ≠ .comma ∧ t.kind ≠ .closeParen

theorem isGroup_iff {g : List Token} : IsGroup g ↔ g ≠ [] ∧ due [] g = some [] ∧ Unbroken [] g := by
  constructor
  · intro h
    refine ⟨h.nonempty, balanced_iff_due.mp h.balanced, fun before t after he hd => ?_⟩
    exact h.unsplit t ⟨before, after, he, balanced_iff_due.mpr hd⟩
  · rintro ⟨hn, hd, hu⟩
    refine ⟨hn, balanced_iff_due.mpr hd, ?_⟩
    rintro t ⟨before, after, he, hb⟩
    exact hu before t after he (balanced_iff_due.mp hb)

theorem Unbroken.tail (h : Unbroken stack (t :: ts)) (hd : dueAfter stack t = some rest) : Unbroken rest ts := by
  rintro before u after rfl hb
  exact h (t :: before) u after rfl (due_cons_eq_some.mpr ⟨rest, hd, hb⟩)

theorem Unbroken.snoc (h : Unbroken stack ts) (ht : due stack ts = some [] → t.kind ≠ .comma ∧ t.kind ≠ .closeParen) :
    Unbroken stack (ts ++ [t]) := by
  intro before u after he hb
  rcases List.eq_nil_or_concat after with rfl | ⟨init, last, rfl⟩
  · obtain ⟨rfl, hu⟩ := List.append_inj' he rfl
    obtain rfl : t = u := by simpa using hu
    exact ht hb
  · have he' : ts ++ [t] = (before ++ u :: init) ++ [last] := by simpa using he
    obtain ⟨rfl, _⟩ := List.append_inj' he' rfl
    exact h before u init rfl hb

end Casewise
