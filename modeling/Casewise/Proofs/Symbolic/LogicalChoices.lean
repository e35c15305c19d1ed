import Casewise.Proofs.NarrowedValues
import Casewise.Proofs.Symbolic.ConditionalReturns
import Casewise.Proofs.Symbolic.RootedClosures
import Casewise.Proofs.Symbolic.Scopes
import Casewise.Proofs.Symbolic.SpareScopes
import Casewise.Proofs.Symbolic.Tidy
import Casewise.Proofs.Writing

namespace Casewise

theorem Scalar.isSome_text?_of_falsy {s : Scalar} (h : s.truth = false) : s.text?.isSome = true := by
  cases s with
  | number n =>
    cases n with
    | int n =>
      obtain rfl : n = 0 := by simpa [Scalar.truth, Number.isZero, Number.exact] using h
      exact integerText?_isSome (Nat.zero_le digitLimit) Nat.zero_lt_one
    | _ => rfl
  | _ => rfl

namespace Ty

variable {t : Ty} {b : Bool}

theorem filterMap_ofTruth_of_truth (h : t.truth? = some b) : (byName t).filterMap (ofTruth b) = byName t := by
  have hkept : ∀ m ∈ byName t, ofTruth b m = some m := by
    intro m hm
    have hm := truth?_of_members h (mem_byName.mp hm)
    refine ofTruth_eq_some.mpr (.inr ⟨?_, ?_, rfl⟩)
    · rintro rfl
      cases hm
    · rw [hm]
      cases b <;> simp
  rw [List.filterMap_congr hkept, List.filterMap_some]

theorem isSome_name?_of_falsy (ho : t.isOneOf = false) (h : t.truth? = some false) : (name? t).isSome = true := by
  cases t with
  | oneOf ms => cases ho
  | literal s => exact Scalar.isSome_text?_of_falsy (Option.some.inj h)
  | tuple es =>
    obtain rfl : es = [] := by simpa [truth?] using h
    rfl
  | primitive q => rfl
  | _ => cases h

theorem nameable_of_falsy (hf : t.Flat) (h : t.truth? = some false) : t.Nameable := by
  refine Named.nameable fun m hm => ?_
  exact isSome_name?_of_falsy (isOneOf_members_of_flat hf hm) (truth?_of_members h hm)

theorem same_union_swap {a c : Ty} (ha : same a a = true) (hc : same c c = true) :
    same (union [a, c]) (union [c, a]) = true := by
  refine same_union_of_kept (by simp [ha, hc]) (by simp [ha, hc]) (kept_congr fun x => ?_)
  simp [or_comm]

theorem same_union_byName (h : t.Steady) : same (union [t]) (union (byName t)) = true := by
  cases t with
  | oneOf ms =>
    obtain ⟨hplain, hsteady⟩ := flat_oneOf.mp h.flat
    have hmem {m : Ty} : m ∈ byName (oneOf ms) ↔ m ∈ ms := mem_byName
    have hself : ∀ m ∈ byName (oneOf ms), same m m = true := fun m hm => (same_self_iff.mp h.self).2 m (hmem.mp hm)
    refine same_union_of_kept (List.forall_mem_singleton.mpr h.self) hself (kept_congr fun x => ?_)
    rw [flatMap_parts_of_plain fun m hm => hplain m (hmem.mp hm), List.flatMap_singleton]
    simp only [Found, hmem]
    rfl
  | _ => exact same_self_union (List.forall_mem_singleton.mpr h.self)

theorem same_union_of_truth (h : t.Steady) (ht : t.truth? = some b) :
    same (union [t]) (union [union ((byName t).filterMap (ofTruth b))]) = true := by
  rw [filterMap_ofTruth_of_truth ht]
  have hflat : ∀ m ∈ (byName t).flatMap parts, m = .unknown ∨ isAlternative m = true := by
    intro m hm
    obtain ⟨c, hc, hmc⟩ := List.mem_flatMap.mp hm
    exact (flat_parts (every_members h.flat (mem_byName.mp hc)) hmc).2
  have hunion : union ([] ++ [union (byName t)]) = union ([] ++ byName t) := union_append_union hflat
  rw [List.nil_append, List.nil_append] at hunion
  rw [hunion]
  exact same_union_byName h

end Ty

namespace Narrowed

def outcome (n : Narrowed) (truth : Bool) : Option Env := if truth then n.whenTrue else n.whenFalse

theorem outcome_given (n : Narrowed) (truth : Option Bool) (b : Bool) :
    (n.given truth).outcome b = if truth = some (!b) then none else n.outcome b := by
  cases b <;> simp [outcome, given]

theorem passing_eq_outcome (n : Narrowed) (op : LogicalOp) :
    n.passing op = n.outcome (!Symbolic.decisive op) := by
  cases op <;> rfl

end Narrowed

namespace Env

def Takes (x : String) (u : Ty) : Option Env → Prop
  | none => u = .never
  | some env => ∃ t, env.get? x = some (.type t) ∧ (Value.type t).asType = (Value.type u).asType

theorem takes_refine (env : Env) (x : String) (u : Ty) : Takes x u (env.refine x u) := by
  unfold refine
  split
  · next hnever => cases u <;> first | rfl | cases hnever
  · exact ⟨u, Bindings.get?_set_self .., rfl⟩

variable {env : Env} {x : String} {t : Ty}

theorem typeOf?_of_get? (hx : env.get? x = some (.type t)) :
    (∃ e, t = .throws e ∧ env.typeOf? x = none) ∨ env.typeOf? x = some t ∧ (Value.type t).asType = t := by
  unfold typeOf?
  rw [hx]
  cases t with
  | throws e => exact .inl ⟨e, rfl, rfl⟩
  | _ => exact .inr ⟨rfl, rfl⟩

theorem narrowTruth_of_nameable (hx : env.get? x = some (.type t)) (hn : (Value.type t).asType.Nameable) :
    ∃ ends, env.narrowTruth x = .ok ends ∧
      ∀ b, Takes x (Ty.union ((Ty.byName (Value.type t).asType).filterMap (Ty.ofTruth b))) (ends.outcome b) := by
  unfold narrowTruth
  obtain ⟨e, rfl, htype⟩ | ⟨htype, hsame⟩ := typeOf?_of_get? hx
  · rw [htype]
    refine ⟨.both env, rfl, fun b => ?_⟩
    cases b <;> exact ⟨.throws e, hx, rfl⟩
  · rw [htype, hsame]
    rw [hsame] at hn
    have hpart (b : Bool) := Ty.truthPart_eq_ok.mpr ⟨hn, Eq.refl (Ty.union ((Ty.byName t).filterMap (Ty.ofTruth b)))⟩
    simp only [hpart]
    refine ⟨_, rfl, fun b => ?_⟩
    cases b <;> exact takes_refine env x _

theorem narrowTruth_of_not_nameable (hx : env.get? x = some (.type t)) (hn : ¬ (Value.type t).asType.Nameable) :
    env.narrowTruth x = .error .tooLong := by
  unfold narrowTruth
  obtain ⟨e, rfl, _⟩ | ⟨htype, hsame⟩ := typeOf?_of_get? hx
  · exact absurd (Ty.nameable_of_single rfl) hn
  · rw [hsame] at hn
    have hpart : t.truthPart true = .error .tooLong := Ty.sortedMembers_bind_of_not_nameable hn
    rw [htype]
    simp only [hpart]
    rfl

end Env

namespace Symbolic

structure Session.Alike (k : Nat) (s s' : Session) : Prop where
  scopes : ∀ i < k, s'.scopes[i]? = s.scopes[i]?
  others : s = { s' with scopes := s.scopes, closures := s.closures }

def Session.extended (s : Session) (env : Option Env) : Session := { s with scopes := env.elim s.scopes s.scopes.push }

variable {k : Nat} {s s' : Session}

theorem Session.alike_self (k : Nat) (s : Session) : s.Alike k s := ⟨fun _ _ => rfl, rfl⟩

theorem Session.Beside.alike (h : s.Beside k s') : s.Alike k s' where
  scopes i hi := by simpa only [shift, if_pos hi] using h.scopes i
  others := h.others

theorem Session.alike_extended (h : k ≤ s.scopes.size) (env : Option Env) : s.Alike k (s.extended env) where
  scopes i hi := by
    cases env with
    | none => rfl
    | some env =>
      show (s.scopes.push env)[i]? = s.scopes[i]?
      rw [Array.getElem?_push, if_neg (by omega)]
  others := rfl

theorem Session.Rooted.beside_extended (h : s.Rooted) (env : Env) :
    s.Beside s.scopes.size (s.extended (some env)) where
  bound := Nat.le_refl _
  size := Array.size_push env
  scopes i := by
    show (s.scopes.push env)[shift s.scopes.size i]? = s.scopes[i]?
    rw [Array.getElem?_push]
    unfold shift
    split
    · next hi => rw [if_neg (by omega)]
    · next hi =>
      rw [if_neg (by omega), Array.getElem?_eq_none (by omega), Array.getElem?_eq_none (by omega)]
  closures := by
    have hkept : ∀ c ∈ s.closures, Renaming.closure.apply (shift s.scopes.size) c = c := fun c hc => by
      simp only [Renaming.closure, shift, if_pos (h c hc)]
    exact ((Array.map_congr_left hkept).trans (Array.map_id _)).symm
  others := rfl

def spelledOut (op : LogicalOp) (p : Extent) (test decided other : Expr) : Expr :=
  match op with
  | .and => .conditional p test other decided
  | .or => .conditional p test decided other

def arranged (op : LogicalOp) (decided other : List Ty) : List Ty :=
  match op with
  | .and => other ++ decided
  | .or => decided ++ other

def Machine.choices (m : Machine) (op : LogicalOp) (decided other : Expr) (ends : Narrowed) : Run (List Ty) :=
  match op with
  | .and => do
    let w ← m.taken other ends.whenTrue
    let v ← m.taken decided ends.whenFalse
    return w.toList ++ v.toList
  | .or => do
    let v ← m.taken decided ends.whenTrue
    let w ← m.taken other ends.whenFalse
    return v.toList ++ w.toList

theorem run_eval_spelledOut (m : Machine) (op : LogicalOp) (p : Extent) (test decided other : Expr) (scope : Nat)
    (s : Session) : (m.eval (spelledOut op p test decided other) scope).run s = (do
      let ends ← m.branches test scope
      return Value.type (.union (← m.choices op decided other ends.2)) : Run Value).run s := by
  cases op
  all_goals
    refine (run_eval_conditional ..).trans ?_
    simp only [Machine.alternatives, Machine.choices, bind_assoc, pure_bind]

theorem onlyTooLong_deciding (op : LogicalOp) (t : Ty) : OnlyTooLong (deciding op t) := by
  unfold deciding
  split
  · exact (t.onlyTooLong_sortedMembers.bind fun _ => onlyTooLong_ok _).bind fun _ => onlyTooLong_ok _
  · exact onlyTooLong_ok _

theorem settles_evalLogical (m : Machine) (op : LogicalOp) (es : List Expr) (scope : Nat) :
    Settles (m.evalLogical op es scope) := by
  induction es generalizing scope with
  | nil => exact settles_pure _
  | cons e es ih =>
    cases es with
    | nil => exact (settles_forcedEval m e scope e.pos).bind fun _ => settles_pure _
    | cons e' es =>
      refine (settles_forcedEval m e scope e.pos).bind fun t => ?_
      split
      · exact settles_pure _
      · refine (settles_liftFault (onlyTooLong_deciding op t)).bind fun part => ?_
        exact (settles_narrowed e scope).bind fun ends => (settles_inScope? _ ih).bind fun _ => settles_pure _

theorem run_eval_logical (m : Machine) (p : Extent) (op : LogicalOp) (es : List Expr) (scope : Nat) (s : Session) :
    (m.eval (.logical p op es) scope).run s =
      (((m.evalLogical op es scope).run s).1.map fun ts => Value.type (.union ts),
        ((m.evalLogical op es scope).run s).2) := by
  have hsettles : Settles (do return Value.type (.union (← m.evalLogical op es scope)) : Run Value) :=
    (settles_evalLogical m op es scope).bind fun _ => settles_pure _
  exact (hsettles.run_located m.module p s).trans (run_bind_pure _ _ s)

section

variable {m : Machine} {scope : Nat} {env : Env} {x : String} {t : Ty}

theorem run_forced_name (q pos : Extent) (hs : s.scopes[scope]? = some env) (hx : env.get? x = some (.type t)) :
    (m.forced (m.eval (.name q x) scope) pos).run s = (.ok (Value.type t).asType, s) := by
  unfold Machine.forced
  rw [run_bind_ok (run_eval_name m q hs hx)]
  rfl

theorem run_narrowed_name (q : Extent) (hs : s.scopes[scope]? = some env) :
    (narrowed (.name q x) scope).run s = (liftFault (env.narrowTruth x)).run s := by
  have henv : (envOf scope).run s = (.ok env, s) := congrArg (fun e : Option Env => (Except.ok (e.getD []), s)) hs
  exact run_bind_ok henv

theorem run_narrowed_name_ok (q : Extent) (hs : s.scopes[scope]? = some env) {ends : Narrowed}
    (h : env.narrowTruth x = .ok ends) : (narrowed (.name q x) scope).run s = (.ok ends, s) := by
  rw [run_narrowed_name q hs, h]
  rfl

theorem run_narrowed_name_unnamed (q : Extent) (hs : s.scopes[scope]? = some env) (hx : env.get? x = some (.type t))
    (hn : ¬ (Value.type t).asType.Nameable) : (narrowed (.name q x) scope).run s = (.error .tooLong, s) := by
  rw [run_narrowed_name q hs, Env.narrowTruth_of_not_nameable hx hn]
  rfl

theorem run_taken_name (m : Machine) (q : Extent) {u : Ty} {o : Option Env} (h : Env.Takes x u o) (s : Session) :
    (m.taken (.name q x) o).run s = (.ok (o.map fun _ => (Value.type u).asType), s.extended o) := by
  cases o with
  | none => rfl
  | some env =>
    obtain ⟨t, hget, htype⟩ := h
    have hscope : (newScope env).run s = (.ok s.scopes.size, s.extended (some env)) := rfl
    have hread : (s.extended (some env)).scopes[s.scopes.size]? = some env := Array.getElem?_push_size
    unfold Machine.taken inScope?
    simp only [run_bind_ok hscope, run_bind_ok (run_forced_name q _ hread hget), htype]
    rfl

theorem bind_inScope?_evalLogical (m : Machine) (op : LogicalOp) (e : Expr) (part : List Ty) (o : Option Env) :
    (do
      let others ← inScope? o (m.evalLogical op [e])
      return part ++ others.getD [] : Run (List Ty)) = (do return part ++ (← m.taken e o).toList) := by
  cases o with
  | none => rfl
  | some env => simp [inScope?, Machine.taken, Machine.evalLogical]

variable {op : LogicalOp} {e : Expr} {q : Extent} (hs : s.scopes[scope]? = some env)
  (hx : env.get? x = some (.type t))

include hs hx

theorem run_evalLogical_decided (ht : (Value.type t).asType.truth? = some (decisive op)) :
    (m.evalLogical op [.name q x, e] scope).run s = (.ok [(Value.type t).asType], s) := by
  refine (run_bind_ok (run_forced_name q q hs hx)).trans ?_
  rw [if_pos (beq_iff_eq.mpr ht)]
  rfl

theorem run_evalLogical_passed (ht : (Value.type t).asType.truth? ≠ some (decisive op)) {part : List Ty}
    (hd : deciding op (Value.type t).asType = .ok part) {ends : Narrowed} (hn : env.narrowTruth x = .ok ends) :
    (m.evalLogical op [.name q x, e] scope).run s =
      (((m.taken e (ends.outcome !decisive op)).run s).1.map fun w => part ++ w.toList,
        ((m.taken e (ends.outcome !decisive op)).run s).2) := by
  have hpart : (liftFault (deciding op (Value.type t).asType)).run s = (.ok part, s) := by
    rw [hd]
    rfl
  refine (run_bind_ok (run_forced_name q q hs hx)).trans ?_
  rw [if_neg (beq_iff_eq.not.mpr ht), run_bind_ok hpart, run_bind_ok (run_narrowed_name_ok q hs hn),
    bind_inScope?_evalLogical, Narrowed.passing_eq_outcome]
  exact run_bind_pure _ _ s

theorem run_evalLogical_unnamed (ht : (Value.type t).asType.truth? ≠ some (decisive op))
    (hn : ¬ (Value.type t).asType.Nameable) :
    (m.evalLogical op [.name q x, e] scope).run s = (.error .tooLong, s) := by
  refine (run_bind_ok (run_forced_name q q hs hx)).trans ?_
  rw [if_neg (beq_iff_eq.not.mpr ht)]
  unfold deciding
  split
  · have hpart : (Value.type t).asType.truthPart (decisive op) = .error .tooLong :=
      Ty.sortedMembers_bind_of_not_nameable hn
    rw [hpart]
    rfl
  · exact (run_bind_ok rfl).trans (run_bind_error (run_narrowed_name_unnamed q hs hx hn))

theorem run_branches_name {ends : Narrowed} (hends : env.narrowTruth x = .ok ends) :
    (m.branches (.name q x) scope).run s =
      (.ok ((Value.type t).asType.truth?, ends.given (Value.type t).asType.truth?), s) :=
  (run_bind_ok (run_forced_name q q hs hx)).trans (run_bind_ok (run_narrowed_name_ok q hs hends))

theorem run_branches_unnamed (hn : ¬ (Value.type t).asType.Nameable) :
    (m.branches (.name q x) scope).run s = (.error .tooLong, s) :=
  (run_bind_ok (run_forced_name q q hs hx)).trans (run_bind_error (run_narrowed_name_unnamed q hs hx hn))

end

section

variable {op : LogicalOp} {x : String} {u : Ty} {ends : Narrowed}

theorem shifts_taken (cfg : Setting) (n k : Nat) (e : Expr) (o : Option Env) :
    Shifts k .fixed ((machine cfg n).taken e o) ((machine cfg n).taken e o) fun _ => True := by
  have hl := shifting_lawful k cfg n
  have ht := hl.taken (shifting_jumps k cfg n) (w := ()) trivial e fun v (_ : o = some v) _ _ => Value.meets_true _
  simp only [shifting_machine] at ht
  exact hl.mono ht fun _ _ _ _ => trivial

theorem exists_run_choices (cfg : Setting) (n : Nat) (hr : s.Rooted) (q : Extent) (e : Expr)
    (ht : Env.Takes x u (ends.outcome (decisive op))) :
    ∃ s₂, (((machine cfg n).taken e (ends.outcome !decisive op)).run s).2.Alike s.scopes.size s₂ ∧
      ((machine cfg n).choices op (.name q x) e ends).run s =
        ((((machine cfg n).taken e (ends.outcome !decisive op)).run s).1.map fun w =>
          arranged op ((ends.outcome (decisive op)).map fun _ => (Value.type u).asType).toList w.toList, s₂) := by
  have hname := run_taken_name (machine cfg n) q ht
  cases op with
  | and =>
    have hsize : s.scopes.size ≤ (((machine cfg n).taken e ends.whenTrue).run s).2.scopes.size :=
      Session.Retains.size_le (Apart.forcedIn cfg n ends.whenTrue e s)
    change ∃ s₂, (((machine cfg n).taken e ends.whenTrue).run s).2.Alike s.scopes.size s₂ ∧ (do
      let w ← (machine cfg n).taken e ends.whenTrue
      let v ← (machine cfg n).taken (.name q x) ends.whenFalse
      return w.toList ++ v.toList : Run (List Ty)).run s = ((((machine cfg n).taken e ends.whenTrue).run s).1.map _, s₂)
    rcases hw : ((machine cfg n).taken e ends.whenTrue).run s with ⟨stop | w, s₁⟩
    · exact ⟨s₁, s₁.alike_self _, run_bind_error hw⟩
    · rw [hw] at hsize
      exact ⟨_, Session.alike_extended hsize _, (run_bind_ok hw).trans (run_bind_ok (hname s₁))⟩
  | or =>
    have hother : ∃ s₂, (((machine cfg n).taken e ends.whenFalse).run s).2.Alike s.scopes.size s₂ ∧
        ((machine cfg n).taken e ends.whenFalse).run (s.extended ends.whenTrue) =
          ((((machine cfg n).taken e ends.whenFalse).run s).1, s₂) := by
      cases ends.whenTrue with
      | none => exact ⟨_, Session.alike_self _ _, rfl⟩
      | some env =>
        obtain ⟨hresult, hbeside, _⟩ := shifts_taken cfg n s.scopes.size e ends.whenFalse s _
          (hr.beside_extended env)
        refine ⟨_, hbeside.alike, Prod.ext ?_ rfl⟩
        rw [hresult]
        cases (((machine cfg n).taken e ends.whenFalse).run s).1 <;> rfl
    obtain ⟨s₂, halike, hother⟩ := hother
    refine ⟨s₂, halike, (run_bind_ok (hname s)).trans ((run_bind_pure _ _ _).trans ?_)⟩
    change (Except.map _ (((machine cfg n).taken e ends.whenFalse).run (s.extended ends.whenTrue)).1,
      (((machine cfg n).taken e ends.whenFalse).run (s.extended ends.whenTrue)).2) = _
    rw [hother]
    rfl

end

inductive Coincides (k : Nat) : Except Stop Value × Session → Except Stop Value × Session → Prop where
  | fail {stop : Stop} {s s' : Session} (h : s.Alike k s') : Coincides k (.error stop, s) (.error stop, s')
  | type {t u : Ty} {s s' : Session} (ht : t.same u = true) (h : s.Alike k s') :
    Coincides k (.ok (.type t), s) (.ok (.type u), s')

theorem not_coincides_error {v : Value} {stop : Stop} : ¬ Coincides k (.ok v, s) (.error stop, s') := by
  intro h
  cases h

theorem coincides_map {r : Except Stop (Option Ty)} {f g : Option Ty → List Ty} (h : s.Alike k s')
    (hfg : ∀ w, r = .ok w → (Ty.union (f w)).same (Ty.union (g w)) = true) :
    Coincides k (r.map fun w => Value.type (.union (f w)), s) (r.map fun w => Value.type (.union (g w)), s') := by
  cases r with
  | error stop => exact .fail h
  | ok w => exact .type (hfg w rfl) h

/-- Where the two differ. The operator gives a variable that is always true without putting its alternatives in order,
and what stands for an exception is no type of a variable. -/
inductive Differs (op : LogicalOp) (t : Ty) (l c : Except Stop Value × Session) : Prop where
  | unnamed (hop : op = .or) (ht : t.truth? = some true) (hn : ¬ t.Nameable) (hl : l.1 = .ok (.type (.union [t])))
    (hc : c.1 = .error .tooLong)
  | exception {name : Option String} (h : t.truthPart (decisive op) = .ok (.throws name))
    (hc : ∀ v, c.1 = .ok v → v = .unknown)

section

variable {op : LogicalOp} {x : String} {t u : Ty} {o : Option Env}

theorem union_arranged (h : Env.Takes x u o) (hu : ∀ name, u ≠ .throws name) (other : List Ty) :
    Ty.union (arranged op (o.map fun _ => (Value.type u).asType).toList other) = Ty.union (arranged op [u] other) := by
  cases o with
  | none =>
    obtain rfl : u = .never := h
    cases op with
    | and => exact (Ty.union_insert_never other []).symm
    | or => exact (Ty.union_insert_never [] other).symm
  | some env =>
    have htype : (Value.type u).asType = u := by
      cases u with
      | throws name => exact absurd rfl (hu name)
      | _ => rfl
    rw [htype]
    rfl

theorem union_arranged_unknown (op : LogicalOp) (other : List Ty) :
    Ty.union (arranged op [.unknown] other) = .unknown := by
  cases op with
  | and => exact Ty.union_insert_unknown other []
  | or => exact Ty.union_insert_unknown [] other

theorem same_arranged (op : LogicalOp) {w : Option Ty} (h : ∀ t ∈ u :: w.toList, t.Steady) :
    (Ty.union (u :: w.toList)).same (Ty.union (arranged op [u] w.toList)) = true := by
  have hself : ∀ t ∈ u :: w.toList, t.same t = true := fun t ht => (h t ht).self
  cases op with
  | or => exact Ty.same_self_union hself
  | and =>
    cases w with
    | none => exact Ty.same_self_union hself
    | some t => exact Ty.same_union_swap (hself u (by simp)) (hself t (by simp))

theorem coincides_or_differs {r : Except Stop (Option Ty)} {f : Option Ty → List Ty}
    (hpart : t.truthPart (decisive op) = .ok u) (h : Env.Takes x u o) (halike : s.Alike k s')
    (hf : ∀ w, r = .ok w → (Ty.union (f w)).same (Ty.union (arranged op [u] w.toList)) = true)
    {l c : Except Stop Value × Session} (hl : l = (r.map fun w => Value.type (.union (f w)), s))
    (hc : c = (r.map fun w =>
      Value.type (.union (arranged op (o.map fun _ => (Value.type u).asType).toList w.toList)), s')) :
    Coincides k l c ∨ Differs op t l c := by
  subst hl hc
  by_cases hthrows : ∃ name, u = .throws name
  · right
    obtain ⟨name, rfl⟩ := hthrows
    refine .exception hpart fun v hv => ?_
    obtain ⟨w, rfl⟩ : ∃ w, r = .ok w := by
      cases r with
      | error stop => cases hv
      | ok w => exact ⟨w, rfl⟩
    cases o with
    | none => cases h
    | some env =>
      obtain rfl := Except.ok.inj hv
      exact congrArg Value.type (union_arranged_unknown op w.toList)
  · left
    refine coincides_map halike fun w hw => ?_
    rw [union_arranged h fun name hname => hthrows ⟨name, hname⟩]
    exact hf w hw

end

section

variable {cfg : Setting} {n scope : Nat} {env : Env} {x : String} {t : Ty}

theorem steady_evalLogical (hm : ∀ name v, cfg.mocks.resolve? name = some v → v.type.Steady) (hk : s.Keeps Ty.Steady)
    {op : LogicalOp} {es : List Expr} {ts : List Ty}
    (h : ((machine cfg n).evalLogical op es scope).run s = (.ok ts, s')) : ∀ t ∈ ts, t.Steady := by
  have hi := (Setting.keeps_steady hm).invariant
  have hat : (keeping (Session.Keeps Ty.Steady) Ty.Steady Ty.Flat cfg n).At () () scope := trivial
  have he (e : Expr) (_ : e ∈ es) := (hi.lawful n).evaluates (hi.jumps n) e
  have ha := (hi.lawful n).evalLogical op he trivial hat
  simp only [keeping_machine] at ha
  exact (ha s hk).2 ts (congrArg Prod.fst h)

theorem map_union_map {r : Except Stop (Option Ty)} (f : Option Ty → List Ty) :
    (r.map f).map (fun ts => Value.type (.union ts)) = r.map fun w => Value.type (.union (f w)) := by
  cases r <;> rfl

section

variable {op : LogicalOp} {e : Expr} {p p' q q₁ q₂ : Extent} {l c : Except Stop Value × Session}
  (hl : l = ((machine cfg n).eval (.logical p op [.name q x, e]) scope).run s)
  (hc : c = ((machine cfg n).eval (spelledOut op p' (.name q₁ x) (.name q₂ x) e) scope).run s)
  (hsteady : ∀ ts s', ((machine cfg n).evalLogical op [.name q x, e] scope).run s = (.ok ts, s') → ∀ t ∈ ts, t.Steady)
  (hs : s.scopes[scope]? = some env) (hx : env.get? x = some (.type t))

include hl hc hsteady hs hx

theorem coincides_or_differs_unnamed (hn : ¬ (Value.type t).asType.Nameable) :
    Coincides s.scopes.size l c ∨ Differs op (Value.type t).asType l c := by
  rw [run_eval_logical] at hl
  rw [run_eval_spelledOut, run_bind_error (run_branches_unnamed hs hx hn)] at hc
  by_cases ht : (Value.type t).asType.truth? = some (decisive op)
  · right
    have hlogical := run_evalLogical_decided (m := machine cfg n) (e := e) (q := q) hs hx ht
    have hflat := (hsteady _ _ hlogical _ (List.mem_singleton_self _)).flat
    rw [hlogical] at hl
    subst hl hc
    cases op with
    | and => exact absurd (Ty.nameable_of_falsy hflat ht) hn
    | or => exact .unnamed rfl ht hn rfl rfl
  · left
    rw [run_evalLogical_unnamed hs hx ht hn] at hl
    subst hl hc
    exact .fail (s.alike_self _)

variable (hr : s.Rooted) (hn : (Value.type t).asType.Nameable)

include hr hn

theorem coincides_or_differs_decided (ht : (Value.type t).asType.truth? = some (decisive op)) :
    Coincides s.scopes.size l c ∨ Differs op (Value.type t).asType l c := by
  obtain ⟨ends, hends, htakes⟩ := Env.narrowTruth_of_nameable hx hn
  have hdecided : (ends.given (Value.type t).asType.truth?).outcome (decisive op) = ends.outcome (decisive op) := by
    rw [Narrowed.outcome_given, ht, if_neg (by simp)]
  have hother : (ends.given (Value.type t).asType.truth?).outcome (!decisive op) = none := by
    rw [Narrowed.outcome_given, ht, if_pos (by simp)]
  obtain ⟨s₂, halike, hchoices⟩ := exists_run_choices cfg n hr q₂ e (hdecided ▸ htakes (decisive op))
  rw [hother] at halike hchoices
  have hlogical := run_evalLogical_decided (m := machine cfg n) (e := e) (q := q) hs hx ht
  refine coincides_or_differs (r := .ok none) (f := fun _ => [(Value.type t).asType])
    (Ty.truthPart_eq_ok.mpr ⟨hn, rfl⟩) (htakes (decisive op)) halike (fun w hw => ?_) ?_ ?_
  · obtain rfl := Except.ok.inj hw
    have hsame := Ty.same_union_of_truth (hsteady _ _ hlogical _ (List.mem_singleton_self _)) ht
    cases op <;> exact hsame
  · rw [hl, run_eval_logical, hlogical]
    rfl
  · rw [hc, run_eval_spelledOut, run_bind_ok (run_branches_name hs hx hends), run_bind_pure, hchoices, hdecided]
    rfl

theorem coincides_passed (ht : (Value.type t).asType.truth? = some (!decisive op)) :
    Coincides s.scopes.size l c := by
  obtain ⟨ends, hends, htakes⟩ := Env.narrowTruth_of_nameable hx hn
  have hdecided : (ends.given (Value.type t).asType.truth?).outcome (decisive op) = none := by
    rw [Narrowed.outcome_given, ht, if_pos rfl]
  have hother : (ends.given (Value.type t).asType.truth?).outcome (!decisive op) = ends.outcome (!decisive op) := by
    rw [Narrowed.outcome_given, ht, if_neg (by simp)]
  have hnever : Env.Takes x .never none := rfl
  obtain ⟨s₂, halike, hchoices⟩ := exists_run_choices cfg n hr q₂ e (hdecided ▸ hnever)
  rw [hother] at halike hchoices
  rw [hdecided] at hchoices
  have hpart : deciding op (Value.type t).asType = .ok [] := by
    unfold deciding
    rw [ht]
  have hlogical := run_evalLogical_passed (m := machine cfg n) (q := q) (e := e) hs hx (by rw [ht]; simp) hpart hends
  rw [hlogical] at hsteady
  rw [hl, run_eval_logical, hlogical, hc, run_eval_spelledOut, run_bind_ok (run_branches_name hs hx hends), run_bind_pure,
    hchoices, map_union_map, map_union_map]
  refine coincides_map halike fun w hw => ?_
  have hself : ∀ t ∈ w.toList, t.Steady := hsteady _ _ (by rw [hw]; rfl)
  have harranged : arranged op [] w.toList = w.toList := by
    cases op with
    | and => exact List.append_nil _
    | or => rfl
  show (Ty.union w.toList).same (Ty.union (arranged op [] w.toList)) = true
  rw [harranged]
  exact Ty.same_self_union fun t ht => (hself t ht).self

theorem coincides_or_differs_undecided (ht : (Value.type t).asType.truth? = none) :
    Coincides s.scopes.size l c ∨ Differs op (Value.type t).asType l c := by
  obtain ⟨ends, hends, htakes⟩ := Env.narrowTruth_of_nameable hx hn
  have hgiven : ends.given (Value.type t).asType.truth? = ends := by
    rw [ht]
    rfl
  obtain ⟨s₂, halike, hchoices⟩ := exists_run_choices cfg n hr q₂ e (htakes (decisive op))
  have htruth := Ty.truthPart_eq_ok.mpr
    ⟨hn, Eq.refl (Ty.union ((Ty.byName (Value.type t).asType).filterMap (Ty.ofTruth (decisive op))))⟩
  have htakes := htakes (decisive op)
  generalize Ty.union ((Ty.byName (Value.type t).asType).filterMap (Ty.ofTruth (decisive op))) = u at htakes hchoices htruth
  have hpart : deciding op (Value.type t).asType = .ok [u] := by
    unfold deciding
    rw [ht, htruth]
    rfl
  have hlogical := run_evalLogical_passed (m := machine cfg n) (q := q) (e := e) hs hx (by rw [ht]; simp) hpart hends
  rw [hlogical] at hsteady
  refine coincides_or_differs (r := (((machine cfg n).taken e (ends.outcome !decisive op)).run s).1)
    (f := fun w => u :: w.toList) htruth htakes halike (fun w hw => ?_) ?_ ?_
  · exact same_arranged op (hsteady _ _ (by rw [hw]; rfl))
  · rw [hl, run_eval_logical, hlogical, map_union_map]
    rfl
  · rw [hc, run_eval_spelledOut, run_bind_ok (run_branches_name hs hx hends), run_bind_pure, hgiven, hchoices,
      map_union_map]

end

/-- A logical operator on a variable evaluates like the conditional expression that spells it out, unless they differ. -/
theorem logical_coincides_with_conditional (hm : ∀ name v, cfg.mocks.resolve? name = some v → v.type.Steady)
    (hk : s.Keeps Ty.Steady) (hr : s.Rooted) (hs : s.scopes[scope]? = some env) (hx : env.get? x = some (.type t))
    (op : LogicalOp) (e : Expr) (p p' q q₁ q₂ : Extent) :
    Coincides s.scopes.size (((machine cfg n).eval (.logical p op [.name q x, e]) scope).run s)
        (((machine cfg n).eval (spelledOut op p' (.name q₁ x) (.name q₂ x) e) scope).run s) ∨
      Differs op (Value.type t).asType (((machine cfg n).eval (.logical p op [.name q x, e]) scope).run s)
        (((machine cfg n).eval (spelledOut op p' (.name q₁ x) (.name q₂ x) e) scope).run s) := by
  have hsteady (ts : List Ty) (s' : Session)
      (h : ((machine cfg n).evalLogical op [.name q x, e] scope).run s = (.ok ts, s')) : ∀ t ∈ ts, t.Steady :=
    steady_evalLogical hm hk h
  by_cases hn : (Value.type t).asType.Nameable
  · cases ht : (Value.type t).asType.truth? with
    | none => exact coincides_or_differs_undecided rfl rfl hsteady hs hx hr hn ht
    | some b =>
      by_cases hb : b = decisive op
      · subst hb
        exact coincides_or_differs_decided rfl rfl hsteady hs hx hr hn ht
      · obtain rfl : b = !decisive op := by cases b <;> cases hd : decisive op <;> simp_all
        exact .inl (coincides_passed rfl rfl hsteady hs hx hr hn ht)
  · exact coincides_or_differs_unnamed rfl rfl hsteady hs hx hn

def longOrTwo : Ty := .oneOf [Ty.int digitBound, Ty.int 2]

def longSession : Session where
  scopes := #[[("size", .type longOrTwo)]]
  frames := [{ depth := 0 }]
where
  size : Expr := .name default "size"

theorem flag_or_coincides_size_or_differs :
    Coincides 1
        (((machine flagSetting 0).eval (.logical default .or [flagSetting.flag, flagSetting.one]) 0).run flagSession)
        (((machine flagSetting 0).eval
          (.conditional default flagSetting.flag flagSetting.flag flagSetting.one) 0).run flagSession) ∧
      Differs .or longOrTwo
        (((machine flagSetting 0).eval (.logical default .or [longSession.size, flagSetting.one]) 0).run longSession)
        (((machine flagSetting 0).eval
          (.conditional default longSession.size longSession.size flagSetting.one) 0).run longSession) := by
  have hmocks (name : String) (v : CaseValue) (hv : flagSetting.mocks.resolve? name = some v) : v.type.Steady := by
    rw [show flagSetting.mocks = [] from rfl, MockChain.resolve?_nil] at hv
    cases hv
  constructor
  · have hkeeps : flagSession.Keeps Ty.Steady := by
      constructor <;> simp [flagSession, Env.All, Value.Meets, show Ty.boolean.Steady from ⟨rfl, rfl⟩]
    have hrooted : flagSession.Rooted := by simp [Session.Rooted, flagSession]
    refine (logical_coincides_with_conditional hmocks hkeeps hrooted rfl rfl .or flagSetting.one default default
      default default default).resolve_right fun hdiffers => ?_
    cases hdiffers with
    | unnamed _ _ hn _ _ => exact hn rfl
    | exception h _ => cases h
  · have hkeeps : longSession.Keeps Ty.Steady := by
      constructor <;> simp [longSession, Env.All, Value.Meets, show longOrTwo.Steady from ⟨by decide, by decide +kernel⟩]
    have hrooted : longSession.Rooted := by simp [Session.Rooted, longSession]
    have hscope : longSession.scopes[0]? = some [("size", .type longOrTwo)] := rfl
    have hsize : Bindings.get? "size" [("size", Value.type longOrTwo)] = some (.type longOrTwo) := rfl
    have hunnamed : ¬ (Value.type longOrTwo).asType.Nameable := by decide +kernel
    have htruth : (Value.type longOrTwo).asType.truth? = some (decisive .or) := by decide +kernel
    refine (logical_coincides_with_conditional hmocks hkeeps hrooted hscope hsize .or flagSetting.one default
      default default default default).resolve_left fun hcoincides => ?_
    rw [run_eval_logical, run_evalLogical_decided hscope hsize htruth, run_eval_spelledOut,
      run_bind_error (run_branches_unnamed hscope hsize hunnamed)] at hcoincides
    exact not_coincides_error hcoincides

end

end Symbolic

end Casewise
