import Casewise.Program.Stmt
import Mathlib.Data.List.Basic

namespace Casewise

namespace Expr

def operands : Expr → List Expr
  | .constant .. => []
  | .name .. => []
  | .binary _ _ l r => [l, r]
  | .unary _ _ e => [e]
  | .logical _ _ es => es
  | .comparison _ l rs => l :: rs.map (·.2)
  | .conditional _ t b o => [t, b, o]
  | .call _ f as ks => f :: (as ++ ks.map (·.value))
  | .member _ v _ => [v]
  | .subscript _ v i => [v, i]
  | .slice _ lower upper step => lower.toList ++ upper.toList ++ step.toList
  | .tuple _ es => es
  | .list _ es => es
  | .set _ es => es
  | .dict _ es => es.flatMap fun e => e.1.toList ++ [e.2]
  | .template _ es => es
  | .formatted _ e _ => [e]
  | .comprehension _ e gs => e :: gs.flatMap fun g => g.target :: g.source :: g.conditions
  | .dictComprehension _ k v gs => k :: v :: gs.flatMap fun g => g.target :: g.source :: g.conditions
  | .lambda .. => []
  | .assign _ _ v => [v]
  | .starred _ v => [v]
  | .other .. => []

section

variable {c : Expr}

theorem sizeOf_option {o : Option Expr} (h : c ∈ o.toList) : sizeOf c < sizeOf o := by
  obtain rfl := Option.mem_toList.mp h
  simp only [Option.some.sizeOf_spec]
  omega

theorem sizeOf_generators {gs : List (Generator Expr)}
    (h : c ∈ gs.flatMap fun g => g.target :: g.source :: g.conditions) : sizeOf c < sizeOf gs := by
  obtain ⟨⟨target, source, conditions⟩, hg, hc⟩ := List.mem_flatMap.mp h
  have hlt := List.sizeOf_lt_of_mem hg
  simp only [List.mem_cons] at hc
  simp only [Generator.mk.sizeOf_spec] at hlt
  rcases hc with rfl | rfl | hc
  · omega
  · omega
  · have := List.sizeOf_lt_of_mem hc
    omega

theorem sizeOf_entries {es : List (Option Expr × Expr)} (h : c ∈ es.flatMap fun e => e.1.toList ++ [e.2]) :
    sizeOf c < sizeOf es := by
  obtain ⟨⟨k, v⟩, he, hc⟩ := List.mem_flatMap.mp h
  have hlt := List.sizeOf_lt_of_mem he
  simp only [Prod.mk.sizeOf_spec] at hlt
  rcases List.mem_append.mp hc with hc | hc
  · have := sizeOf_option (o := k) hc
    omega
  · obtain rfl : c = v := List.mem_singleton.mp hc
    omega

theorem sizeOf_compared {rs : List (CompareOp × Expr)} (h : c ∈ rs.map (·.2)) : sizeOf c < sizeOf rs := by
  obtain ⟨⟨op, e⟩, hr, rfl⟩ := List.mem_map.mp h
  have hlt := List.sizeOf_lt_of_mem hr
  simp only [Prod.mk.sizeOf_spec] at hlt ⊢
  omega

theorem sizeOf_keywords {ks : List (Keyword Expr)} (h : c ∈ ks.map (·.value)) : sizeOf c < sizeOf ks := by
  obtain ⟨⟨name, e⟩, hk, rfl⟩ := List.mem_map.mp h
  have hlt := List.sizeOf_lt_of_mem hk
  simp only [Keyword.mk.sizeOf_spec] at hlt ⊢
  omega

end

theorem sizeOf_operand {e c : Expr} (h : c ∈ e.operands) : sizeOf c < sizeOf e := by
  have hall (es : List Expr) (hc : c ∈ es) : sizeOf c < sizeOf es := List.sizeOf_lt_of_mem hc
  cases e with
  | constant p v => cases h
  | name p id => cases h
  | binary p op l r =>
    simp only [operands, List.mem_cons, List.not_mem_nil, or_false] at h
    rcases h with rfl | rfl <;> (simp only [binary.sizeOf_spec]; omega)
  | unary p op e =>
    obtain rfl := List.mem_singleton.mp h
    simp only [unary.sizeOf_spec]
    omega
  | logical p op es =>
    have hlt := hall es h
    simp only [logical.sizeOf_spec]
    omega
  | comparison p l rs =>
    simp only [comparison.sizeOf_spec]
    rcases List.mem_cons.mp h with rfl | h
    · omega
    · have := sizeOf_compared h
      omega
  | conditional p t b o =>
    simp only [operands, List.mem_cons, List.not_mem_nil, or_false] at h
    rcases h with rfl | rfl | rfl <;> (simp only [conditional.sizeOf_spec]; omega)
  | call p f as ks =>
    simp only [operands, List.mem_cons, List.mem_append] at h
    simp only [call.sizeOf_spec]
    rcases h with rfl | h | h
    · omega
    · have := List.sizeOf_lt_of_mem h
      omega
    · have := sizeOf_keywords h
      omega
  | member p v a =>
    obtain rfl := List.mem_singleton.mp h
    simp only [member.sizeOf_spec]
    omega
  | subscript p v i =>
    simp only [operands, List.mem_cons, List.not_mem_nil, or_false] at h
    rcases h with rfl | rfl <;> (simp only [subscript.sizeOf_spec]; omega)
  | slice p lower upper step =>
    simp only [operands, List.mem_append] at h
    simp only [slice.sizeOf_spec]
    rcases h with (h | h) | h <;>
    · have hlt := sizeOf_option h
      omega
  | tuple p es =>
    have hlt := hall es h
    simp only [tuple.sizeOf_spec]
    omega
  | list p es =>
    have hlt := hall es h
    simp only [list.sizeOf_spec]
    omega
  | set p es =>
    have hlt := hall es h
    simp only [set.sizeOf_spec]
    omega
  | dict p es =>
    have := sizeOf_entries h
    simp only [dict.sizeOf_spec]
    omega
  | template p es =>
    have hlt := hall es h
    simp only [template.sizeOf_spec]
    omega
  | formatted p v spec =>
    obtain rfl := List.mem_singleton.mp h
    simp only [formatted.sizeOf_spec]
    omega
  | comprehension p e gs =>
    simp only [comprehension.sizeOf_spec]
    rcases List.mem_cons.mp h with rfl | h
    · omega
    · have := sizeOf_generators h
      omega
  | dictComprehension p k v gs =>
    simp only [operands, List.mem_cons] at h
    simp only [dictComprehension.sizeOf_spec]
    rcases h with rfl | rfl | h
    · omega
    · omega
    · have := sizeOf_generators h
      omega
  | lambda p params body => cases h
  | assign p target v =>
    obtain rfl := List.mem_singleton.mp h
    simp only [assign.sizeOf_spec]
    omega
  | starred p v =>
    obtain rfl := List.mem_singleton.mp h
    simp only [starred.sizeOf_spec]
    omega
  | other p es => cases h

theorem induct_operands {P : Expr → Prop} (step : ∀ e, (∀ c ∈ e.operands, P c ∧ ∀ d ∈ c.operands, P d) → P e)
    (e : Expr) : P e := by
  induction hn : sizeOf e using Nat.strongRecOn generalizing e with
  | ind n ih =>
    subst hn
    refine step e fun c hc => ⟨ih _ (sizeOf_operand hc) c rfl, fun d hd => ?_⟩
    exact ih _ (Nat.lt_trans (sizeOf_operand hd) (sizeOf_operand hc)) d rfl

end Expr

def Params.defaultValues {ε : Type} (p : Params ε) : List ε := p.defaults ++ p.keywordOnly.filterMap (·.2)

theorem Expr.sizeOf_default {p : Extent} {params : Params Expr} {body c : Expr} (h : c ∈ params.defaultValues) :
    sizeOf c < sizeOf (Expr.lambda p params body) := by
  obtain ⟨posonly, ordinary, defaults, rest, keywordOnly, keywordRest, annotations⟩ := params
  simp only [lambda.sizeOf_spec, Params.mk.sizeOf_spec]
  rcases List.mem_append.mp h with h | h
  · have := List.sizeOf_lt_of_mem h
    dsimp only at this
    omega
  · obtain ⟨⟨name, default⟩, hk, hd⟩ := List.mem_filterMap.mp h
    have := List.sizeOf_lt_of_mem hk
    dsimp only at hd this
    subst hd
    simp only [Prod.mk.sizeOf_spec, Option.some.sizeOf_spec] at this
    omega

namespace Stmt

def parts : Stmt → List Stmt
  | .branch _ _ body otherwise => body ++ otherwise
  | .forLoop _ _ _ body otherwise => body ++ otherwise
  | .whileLoop _ _ body otherwise => body ++ otherwise
  | .trying _ body handlers otherwise final => body ++ handlers.flatMap (·.body) ++ otherwise ++ final
  | .withBlock _ _ body => body
  | .matching _ _ arms => arms.flatMap (·.body)
  | _ => []

theorem sizeOf_part {s c : Stmt} (h : c ∈ s.parts) : sizeOf c < sizeOf s := by
  cases s with
  | branch p t body otherwise =>
    simp only [branch.sizeOf_spec]
    rcases List.mem_append.mp h with h | h <;>
    · have hlt := List.sizeOf_lt_of_mem h
      omega
  | forLoop p t s body otherwise =>
    simp only [forLoop.sizeOf_spec]
    rcases List.mem_append.mp h with h | h <;>
    · have hlt := List.sizeOf_lt_of_mem h
      omega
  | whileLoop p t body otherwise =>
    simp only [whileLoop.sizeOf_spec]
    rcases List.mem_append.mp h with h | h <;>
    · have hlt := List.sizeOf_lt_of_mem h
      omega
  | trying p body handlers otherwise final =>
    simp only [parts, List.mem_append] at h
    simp only [trying.sizeOf_spec]
    rcases h with ((h | h) | h) | h
    · have := List.sizeOf_lt_of_mem h
      omega
    · obtain ⟨⟨exception, name, body⟩, hh, hc⟩ := List.mem_flatMap.mp h
      have := List.sizeOf_lt_of_mem hh
      have := List.sizeOf_lt_of_mem hc
      simp only [Handler.mk.sizeOf_spec] at *
      omega
    · have := List.sizeOf_lt_of_mem h
      omega
    · have := List.sizeOf_lt_of_mem h
      omega
  | withBlock p items body =>
    have : sizeOf c < sizeOf body := List.sizeOf_lt_of_mem h
    simp only [withBlock.sizeOf_spec]
    omega
  | matching p subject arms =>
    obtain ⟨⟨pattern, guard, body⟩, ha, hc⟩ := List.mem_flatMap.mp h
    have := List.sizeOf_lt_of_mem ha
    have := List.sizeOf_lt_of_mem hc
    simp only [matching.sizeOf_spec, Arm.mk.sizeOf_spec] at *
    omega
  | _ => cases h

theorem induct_parts {P : Stmt → Prop} (step : ∀ s, (∀ c ∈ s.parts, P c) → P s) (s : Stmt) : P s := by
  induction hn : sizeOf s using Nat.strongRecOn generalizing s with
  | ind n ih =>
    subst hn
    exact step s fun c hc => ih _ (sizeOf_part hc) c rfl

end Stmt

end Casewise
