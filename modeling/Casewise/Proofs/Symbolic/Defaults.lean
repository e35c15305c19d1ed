import Casewise.Proofs.Bindings
import Casewise.Proofs.Operands
import Casewise.Symbolic.Session
import Mathlib.Data.Set.Finite.Basic

namespace Casewise

namespace Expr

inductive Within (d : Expr) : Expr → Prop where
  | self : Within d d
  | operand {e c : Expr} (h : Within d e) (hc : c ∈ e.operands) : Within d c

inductive Reaches (d : Expr) : Expr → Prop where
  | self : Reaches d d
  | operand {e c : Expr} (h : Reaches d e) (hc : c ∈ e.operands) : Reaches d c
  | default {p : Extent} {params : Params Expr} {body c : Expr} (h : Reaches d (.lambda p params body))
    (hc : c ∈ params.defaultValues) : Reaches d c

variable {c d e : Expr}

theorem Within.reaches (h : d.Within e) : d.Reaches e := by
  induction h with
  | self => exact .self
  | operand _ hc ih => exact ih.operand hc

theorem Reaches.trans (hd : c.Reaches d) (he : d.Reaches e) : c.Reaches e := by
  induction he with
  | self => exact hd
  | operand _ hc ih => exact ih.operand hc
  | default _ hc ih => exact ih.default hc

theorem Within.sizeOf_le (h : d.Within e) : sizeOf e ≤ sizeOf d := by
  induction h with
  | self => exact Nat.le_refl _
  | operand _ hc ih => exact (Nat.le_of_lt (sizeOf_operand hc)).trans ih

end Expr

namespace Symbolic.Setting

variable (cfg : Setting)

def function? (name : String) : Option (FunctionDef Stmt) :=
  if (cfg.mocks.resolve? name).isSome then none else cfg.module.functions.get? name

inductive Needs (d : Expr) : Expr → Prop where
  | lambda {p : Extent} {params : Params Expr} {body x : Expr} (h : d.Within (.lambda p params body))
    (hx : x ∈ params.defaultValues) : Needs d x
  | function {p : Extent} {name : String} {f : FunctionDef Stmt} {x : Expr} (h : d.Within (.name p name))
    (hf : cfg.function? name = some f) (hx : x ∈ f.params.defaultValues) : Needs d x

def DefaultsUse (first second : String) : Prop :=
  ∃ f, cfg.module.functions.get? first = some f ∧ (cfg.function? second).isSome ∧
    ∃ d ∈ f.params.defaultValues, ∃ p, d.Reaches (.name p second)

variable {cfg}

theorem get?_of_function? {name : String} {f : FunctionDef Stmt} (h : cfg.function? name = some f) :
    cfg.module.functions.get? name = some f := by
  unfold function? at h
  split at h
  · cases h
  · exact h

theorem wellFounded_defaultsUse (h : ∀ f, ¬ Relation.TransGen cfg.DefaultsUse f f) :
    WellFounded fun second first => cfg.DefaultsUse first second := by
  let Name := { n : String // n ∈ cfg.module.functions.map (·.1) }
  have hfinite : Finite Name := (List.finite_toSet (cfg.module.functions.map (·.1))).to_subtype
  let below (m n : Name) : Prop := Relation.TransGen cfg.DefaultsUse n.1 m.1
  have htrans : IsTrans Name below := ⟨fun _ _ _ hab hbc => hbc.trans hab⟩
  have hirrefl : Std.Irrefl below := ⟨fun n => h n.1⟩
  have hname {n : String} {f : FunctionDef Stmt} (hf : cfg.module.functions.get? n = some f) :
      n ∈ cfg.module.functions.map (·.1) := List.mem_map.mpr ⟨(n, f), Bindings.mem_of_get? hf, rfl⟩
  have hacc (n : Name) : Acc (fun second first => cfg.DefaultsUse first second) n.1 := by
    induction n using (Finite.wellFounded_of_trans_of_irrefl below).induction with
    | _ n ih =>
      refine ⟨_, fun second huse => ?_⟩
      obtain ⟨g, hg⟩ := Option.isSome_iff_exists.mp huse.choose_spec.2.1
      exact ih ⟨second, hname (get?_of_function? hg)⟩ (.single huse)
  refine ⟨fun first => ⟨_, fun second huse => ?_⟩⟩
  obtain ⟨g, hg⟩ := Option.isSome_iff_exists.mp huse.choose_spec.2.1
  exact hacc ⟨second, hname (get?_of_function? hg)⟩

theorem acc_needs (h : ∀ f, ¬ Relation.TransGen cfg.DefaultsUse f f) (d : Expr) :
    Acc (fun x d => cfg.Needs d x) d := by
  -- Within one text the defaults get smaller, up to the functions that the text refers to.
  have htext (d : Expr) (hd : ∀ p name f, d.Reaches (.name p name) → cfg.function? name = some f →
      ∀ x ∈ f.params.defaultValues, Acc (fun x d => cfg.Needs d x) x) : Acc (fun x d => cfg.Needs d x) d := by
    induction hn : sizeOf d using Nat.strong_induction_on generalizing d with
    | _ n ih =>
      refine ⟨_, fun x hx => ?_⟩
      cases hx with
      | lambda hl hx =>
        have hsize : sizeOf x < n := hn ▸ (Expr.sizeOf_default hx).trans_le hl.sizeOf_le
        refine ih _ hsize x (fun p name f hr => hd p name f ?_) rfl
        exact (hl.reaches.default hx).trans hr
      | function hw hf hx => exact hd _ _ _ hw.reaches hf x hx
  have hfunction (name : String) (f : FunctionDef Stmt) (hf : cfg.function? name = some f) :
      ∀ x ∈ f.params.defaultValues, Acc (fun x d => cfg.Needs d x) x := by
    induction name using (wellFounded_defaultsUse h).induction generalizing f with
    | _ name ih =>
      intro x hx
      refine htext x fun p other g hr hg => ih other ?_ g hg
      exact ⟨f, get?_of_function? hf, by simp [hg], x, hx, p, hr⟩
  exact htext d fun p name f _ hf => hfunction name f hf

end Symbolic.Setting

end Casewise
