import Casewise.Mock
import Casewise.Proofs.Bindings

namespace Casewise

variable {σ α β : Type}

theorem forall₂_mapM {R : α → β → Prop} {f : α → StateM σ β} (h : ∀ a s, R a ((f a).run s).1) (as : List α) (s : σ) :
    List.Forall₂ R as ((as.mapM f).run s).1 := by
  induction as generalizing s with
  | nil => exact .nil
  | cons a as ih =>
    rw [List.mapM_cons]
    exact .cons (h a s) (ih ((f a).run s).2)

theorem rel_or {R : α → β → Prop} {a a' : Option α} {b b' : Option β} (h : Option.Rel R a b) (h' : Option.Rel R a' b') :
    Option.Rel R (a.or a') (b.or b') := by
  cases h with
  | none => exact h'
  | some h => exact .some h

theorem isSome_of_rel {R : α → β → Prop} {a : Option α} {b : Option β} (h : Option.Rel R a b) :
    a.isSome = b.isSome := by
  cases h <;> rfl

theorem rel_map {γ δ : Type} {R : α → β → Prop} {S : γ → δ → Prop} {g : α → γ} {h : β → δ} {a : Option α} {b : Option β}
    (hr : Option.Rel R a b) (hs : ∀ x y, R x y → S (g x) (h y)) : Option.Rel S (a.map g) (b.map h) := by
  cases hr with
  | none => exact .none
  | some hr => exact .some (hs _ _ hr)

variable {f : Number → StateM σ Number}

def Datum.Renumbered (f : Number → StateM σ Number) (d d' : Datum) : Prop := ∃ s, ((d.mapNumbers f).run s).1 = d'

def Ty.Renumbered (f : Number → StateM σ Number) (t t' : Ty) : Prop := ∃ s, ((t.mapNumbers f).run s).1 = t'

def CaseValue.Renumbered (f : Number → StateM σ Number) (v v' : CaseValue) : Prop :=
  ∃ s, ((v.mapNumbers f).run s).1 = v'

theorem Datum.renumbered_fields (fs : List (String × Datum)) (s : σ) :
    List.Forall₂ (fun a b => a.1 = b.1 ∧ a.2.Renumbered f b.2) fs ((mapFields f fs).run s).1 := by
  induction fs generalizing s with
  | nil => exact .nil
  | cons g fs ih => exact .cons ⟨rfl, s, rfl⟩ (ih ((g.2.mapNumbers f).run s).2)

theorem Ty.renumbered_fields (fs : List (String × Ty)) (s : σ) :
    List.Forall₂ (fun a b => a.1 = b.1 ∧ a.2.Renumbered f b.2) fs ((mapFields f fs).run s).1 := by
  induction fs generalizing s with
  | nil => exact .nil
  | cons g fs ih => exact .cons ⟨rfl, s, rfl⟩ (ih ((g.2.mapNumbers f).run s).2)

theorem Mock.rel_field? {v v' : CaseValue} (h : v.Renumbered f v') (name : String) :
    Option.Rel (CaseValue.Renumbered f) (field? name v) (field? name v') := by
  obtain ⟨s, rfl⟩ := h
  cases v with
  | concrete d =>
    cases d with
    | record fs =>
      refine rel_map (Bindings.rel_get? (Datum.renumbered_fields fs s) name) ?_
      rintro _ _ ⟨s, rfl⟩
      exact ⟨s, rfl⟩
    | _ => exact .none
  | symbolic t =>
    cases t with
    | object fs =>
      refine rel_map (Bindings.rel_get? (Ty.renumbered_fields fs s) name) ?_
      rintro _ _ ⟨s, rfl⟩
      exact ⟨s, rfl⟩
    | _ => exact .none

theorem Mock.rel_path? {v v' : CaseValue} (h : v.Renumbered f v') (path : List String) :
    Option.Rel (CaseValue.Renumbered f) (path? v path) (path? v' path) := by
  induction path generalizing v v' with
  | nil => exact .some h
  | cons name path ih =>
    have hfield := rel_field? h name
    unfold path?
    rw [List.foldlM_cons, List.foldlM_cons]
    generalize field? name v = a at hfield ⊢
    generalize field? name v' = b at hfield ⊢
    cases hfield with
    | none => exact .none
    | some h => exact ih h

namespace MockChain

theorem resolve?_nil (name : String) : MockChain.resolve? [] name = none := by
  unfold MockChain.resolve? MockChain.underRoot?
  split <;> rfl

def Renumbered (f : Number → StateM σ Number) (chain chain' : MockChain) : Prop :=
  List.Forall₂ (List.Forall₂ fun a b => a.1 = b.1 ∧ a.2.Renumbered f b.2) chain chain'

theorem renumbered (chain : MockChain) (s : σ) : chain.Renumbered f ((chain.mapNumbers f).run s).1 :=
  forall₂_mapM (fun scope s => forall₂_mapM (fun _ s => ⟨rfl, s, rfl⟩) scope s) chain s

variable {chain chain' : MockChain}

theorem rel_lookup? (h : chain.Renumbered f chain') (name : String) :
    Option.Rel (CaseValue.Renumbered f) (chain.lookup? name) (chain'.lookup? name) := by
  induction h with
  | nil => exact .none
  | cons hs _ ih => exact rel_or (Bindings.rel_get? hs name) ih

theorem rel_resolve? (h : chain.Renumbered f chain') (name : String) :
    Option.Rel (CaseValue.Renumbered f) (chain.resolve? name) (chain'.resolve? name) := by
  refine rel_or (rel_lookup? h name) ?_
  unfold underRoot?
  split
  · next root part path _ =>
    have hroot := rel_lookup? h root
    generalize chain.lookup? root = a at hroot ⊢
    generalize chain'.lookup? root = b at hroot ⊢
    cases hroot with
    | none => exact .none
    | some h => exact Mock.rel_path? h (part :: path)
  · exact .none

end MockChain

end Casewise
