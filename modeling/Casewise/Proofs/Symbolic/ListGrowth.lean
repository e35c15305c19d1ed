import Casewise.Proofs.Symbolic.Tidy
import Casewise.Proofs.Symbolic.Touched

namespace Casewise

namespace Ty

def growing : List String := ["append", "insert", "extend"]

theorem methodResult_array {name : String} (hn : name ∈ growing) (e : Ty) (args : List Ty) :
    (Ty.array e).methodResult name args = do return ⟨null, some (.array (union [e, ← addedBy name args]))⟩ := by
  simp only [growing, List.mem_cons, List.not_mem_nil, or_false] at hn
  rcases hn with rfl | rfl | rfl <;> rfl

theorem assignable_array {a b : Ty} : assignable (.array a) (.array b) = true ↔ assignable a b = true := by
  simp [assignable, members]

theorem contains_method_of_growing {name : String} (hn : name ∈ growing) (e : Ty) :
    ((MemberOwner.ofType (.array e)).filterMap (·.member? name)).contains .method = true := by
  simp only [growing, List.mem_cons, List.not_mem_nil, or_false] at hn
  rcases hn with rfl | rfl | rfl <;> rfl

end Ty

namespace Symbolic

variable {m : Machine} {cfg : Setting} {n scope : Nat} {s s' : Session} {env : Env} {x name : String} {t added last : Ty}
  {types : List Ty}

theorem memberOfSingle_array (hn : name ∈ Ty.growing) (e : Ty) (target : Option String) (pos : Extent) :
    m.memberOfSingle (.array e) name target pos = pure (.method (.array e) name target) := by
  unfold Machine.memberOfSingle
  dsimp only
  rw [if_pos (Ty.contains_method_of_growing hn e)]

theorem mapM_eq_pure {α β : Type} {f : α → Run β} {g : α → β} {as : List α} (h : ∀ a ∈ as, f a = pure (g a)) :
    as.mapM f = pure (as.map g) := by
  induction as with
  | nil => rfl
  | cons a as ih =>
    obtain ⟨ha, has⟩ := List.forall_mem_cons.mp h
    rw [List.mapM_cons, ha, pure_bind, ih has, pure_bind, List.map_cons]

theorem memberOf_lists (hn : name ∈ Ty.growing) (hne : t.members ≠ []) (ht : ∀ a ∈ t.members, ∃ e, a = .array e)
    (target : Option String) (pos : Extent) : m.memberOf t name target pos = pure (.method t name target) := by
  have single {a : Ty} (ha : a ∈ t.members) : m.memberOfSingle a name target pos = pure (.method a name target) := by
    obtain ⟨e, rfl⟩ := ht a ha
    exact memberOfSingle_array hn e target pos
  unfold Machine.memberOf
  split
  · next ms =>
    have hfound := mapM_eq_pure (f := fun a => m.memberOfSingle a name target pos) fun a (ha : a ∈ ms) => single ha
    rw [hfound, pure_bind, if_pos]
    obtain ⟨a, ha⟩ := List.exists_mem_of_ne_nil _ hne
    exact List.any_eq_true.mpr ⟨_, List.mem_map_of_mem ha, rfl⟩
  · next hone =>
    refine single ?_
    cases t with
    | oneOf ms => exact absurd rfl (hone ms)
    | _ => exact List.mem_singleton_self _

theorem run_eval_listMethod (hn : name ∈ Ty.growing) (hne : t.members ≠ []) (ht : ∀ a ∈ t.members, ∃ e, a = .array e)
    (hs : s.scopes[scope]? = some env) (hx : env.get? x = some (.type t)) (q r : Extent) :
    (m.eval (.member q (.name r x) name) scope).run s = (.ok (.method t name (some x)), s) := by
  have htype : (Value.type t).type? = some t := by
    cases t with
    | throws c =>
      obtain ⟨e, he⟩ := ht (.throws c) (List.mem_singleton_self _)
      cases he
    | _ => rfl
  show (located _ _ _).run s = _
  rw [run_located, run_bind_ok (run_eval_name m r hs hx)]
  dsimp only
  rw [htype]
  dsimp only
  rw [memberOf_lists hn hne ht]
  rfl

theorem run_callMethodOn_array (hn : name ∈ Ty.growing) (hadded : Ty.addedBy name types = .ok added) (e : Ty)
    (hs : s.scopes[scope]? = some env) (hx : env.has x = true) :
    ∃ s₁, (Machine.callMethodOn name (some x) types scope (.array e)).run s = (.ok .null, s₁) ∧
      s₁.scopes[scope]? = some (env.set x (.type (.array (.union [e, added])))) := by
  have hrun : (Machine.callMethodOn name (some x) types scope (.array e)).run s = (.ok .null, { s with
      scopes := s.scopes.modify scope fun env => if env.has x then env.set x (.type (.array (.union [e, added]))) else env
      }) := by
    unfold Machine.callMethodOn
    rw [Ty.methodResult_array hn, hadded]
    rfl
  refine ⟨_, hrun, ?_⟩
  dsimp only
  rw [Array.getElem?_modify, if_pos rfl, hs, Option.map_some, if_pos hx]

theorem run_callMethodOn_lists (hn : name ∈ Ty.growing) (hadded : Ty.addedBy name types = .ok added) {lists : List Ty}
    (hlists : ∀ a ∈ lists, ∃ e, a = .array e) (hlast : lists.getLast? = some (.array last))
    (hs : s.scopes[scope]? = some env) (hx : env.has x = true) :
    ∃ returns s' after, (lists.mapM (Machine.callMethodOn name (some x) types scope)).run s = (.ok returns, s') ∧
      s'.scopes[scope]? = some after ∧ after.get? x = some (.type (.array (.union [last, added]))) := by
  induction lists generalizing s env with
  | nil => cases hlast
  | cons a lists ih =>
    obtain ⟨⟨e, rfl⟩, hrest⟩ := List.forall_mem_cons.mp hlists
    obtain ⟨s₁, hrun, hs₁⟩ := run_callMethodOn_array hn hadded e hs hx
    rw [List.mapM_cons]
    cases lists with
    | nil =>
      cases hlast
      exact ⟨[.null], s₁, _, (run_bind_ok hrun).trans rfl, hs₁, Bindings.get?_set_self _ _ _⟩
    | cons b lists =>
      obtain ⟨returns, s', after, hmap, hafter, hget⟩ := ih hrest hlast hs₁ (by simp [Bindings.has])
      exact ⟨.null :: returns, s', after, (run_bind_ok hrun).trans ((run_bind_ok hmap).trans rfl), hafter, hget⟩

theorem exists_of_callMethod (hn : name ∈ Ty.growing) (hne : t.members ≠ []) (ht : ∀ a ∈ t.members, ∃ e, a = .array e)
    (hs : s.scopes[scope]? = some env) (hx : env.has x = true) {u : Ty}
    (h : (Machine.callMethod t name (some x) types scope).run s = (.ok u, s')) :
    ∃ lists last added after, t.sortedMembers = .ok lists ∧ lists.getLast? = some (.array last) ∧
      Ty.addedBy name types = .ok added ∧ s'.scopes[scope]? = some after ∧
      after.get? x = some (.type (.array (.union [last, added]))) := by
  obtain ⟨lists, s₁, hlists, hcalls⟩ := run_bind_eq_ok h
  obtain ⟨hsorted, rfl⟩ := run_liftFault_eq_ok hlists
  obtain ⟨returns, s₂, hmap, hreturn⟩ := run_bind_eq_ok hcalls
  cases hreturn
  have hmem {a : Ty} : a ∈ lists ↔ a ∈ t.members := by
    rw [(Ty.sortedMembers_eq_ok.mp hsorted).2]
    exact Ty.mem_byName
  have harrays : ∀ a ∈ lists, ∃ e, a = .array e := fun a ha => ht a (hmem.mp ha)
  obtain ⟨first, hfirst⟩ := List.exists_mem_of_ne_nil _ hne
  obtain ⟨a, rest, rfl⟩ := List.exists_cons_of_ne_nil (List.ne_nil_of_mem (hmem.mpr hfirst))
  obtain ⟨b, hlast⟩ : ∃ b, (a :: rest).getLast? = some b := ⟨_, List.getLast?_cons⟩
  obtain ⟨last, rfl⟩ := harrays b (List.mem_of_getLast? hlast)
  cases hadded : Ty.addedBy name types with
  | ok added =>
    obtain ⟨returns', s₃, after, hrun, hafter, hget⟩ := run_callMethodOn_lists hn hadded harrays hlast hs hx
    rw [hrun] at hmap
    cases hmap
    exact ⟨a :: rest, last, added, after, hsorted, hlast, rfl, hafter, hget⟩
  | error f =>
    -- then the method fails on the first list already
    obtain ⟨e, rfl⟩ := harrays a List.mem_cons_self
    have herror : ∃ stop s₃, (Machine.callMethodOn name (some x) types scope (.array e)).run s₁ = (.error stop, s₃) := by
      unfold Machine.callMethodOn
      rw [Ty.methodResult_array hn, hadded]
      cases f <;> exact ⟨_, _, rfl⟩
    obtain ⟨stop, s₃, herror⟩ := herror
    rw [List.mapM_cons, run_bind_error herror] at hmap
    cases hmap

def Machine.addition (m : Machine) (name : String) (as : List Expr) (pos : Extent) (scope : Nat) : Run Ty := do
  let (args, _) ← m.evalArgs as scope
  let types ← args.mapM fun a => m.force a pos
  liftFault (Ty.addedBy name types)

theorem tidy_addition (hm : ∀ name v, cfg.mocks.resolve? name = some v → v.type.Tidy) (name : String) (as : List Expr)
    (pos : Extent) (scope : Nat) :
    Preserves (Session.Keeps Ty.Tidy) ((machine cfg n).addition name as pos scope) Ty.Tidy := by
  have hk := (Setting.keeps_tidy hm).invariant
  have hl := hk.lawful n
  have hargs := hl.evalArgs (l := ()) (w := ()) (fun e (_ : e ∈ as) => hl.evaluates (hk.jumps n) e) trivial
    (s := scope) trivial
  simp only [keeping_machine] at hargs
  refine hargs.bind fun found hfits => ?_
  obtain ⟨args, loose⟩ := found
  have hforced := hl.forceAll (l := ()) (w := ()) hfits pos
  simp only [keeping_machine] at hforced
  exact hforced.bind fun types htypes => preserves_liftFault (Ty.closed_tidy.addedBy htypes name)

theorem exists_bound_after {as : List Expr} {pos : Extent} {args : List Value} {loose : Bool} {s₁ s₂ : Session}
    (hs : s.scopes[scope]? = some env) (hx : env.has x = true)
    (hargs : ((machine cfg n).evalArgs as scope).run s = (.ok (args, loose), s₁))
    (htypes : (args.mapM fun a => (machine cfg n).force a pos).run s₁ = (.ok types, s₂)) :
    ∃ env₂, s₂.scopes[scope]? = some env₂ ∧ env₂.has x = true := by
  have hall : ∀ e ∈ as, Stays (fun _ => True) cfg n scope e := fun e _ => stays e fun _ _ => trivial
  obtain ⟨⟨_, between, hbetween, hchanges⟩, _⟩ := touched_evalArgs hall s
    ⟨fun i (_ : i < s.scopes.size) _ => rfl, env, hs, fun _ _ => rfl, fun _ => id, fun b _ => b.2.aims_true⟩
  have hretains := Apart.forceAll cfg n args pos s₁
  rw [hargs] at hbetween
  rw [htypes] at hretains
  exact ⟨between, (hretains scope (Array.getElem?_eq_some_iff.mp hbetween).1).trans hbetween, hchanges.bound x hx⟩

/-- After a method that adds to the lists that a variable may hold, the variable holds lists of what the last of them, by
name, held and of what was added. So that list and the lists of what was added fit its new type; another list fits it
only if its items do, and a variable that held lists of one type forgets nothing. -/
theorem growing_method_holds {p q r : Extent} {as : List Expr} {v : Value}
    (hm : ∀ name v, cfg.mocks.resolve? name = some v → v.type.Tidy) (hk : s.Keeps Ty.Tidy)
    (hs : s.scopes[scope]? = some env) (hx : env.get? x = some (.type t)) (hne : t.members ≠ [])
    (ht : ∀ a ∈ t.members, ∃ e, a = .array e) (hn : name ∈ Ty.growing)
    (h : ((machine cfg n).eval (.call p (.member q (.name r x) name) as []) scope).run s = (.ok v, s')) :
    ∃ added s₁ lists last after, ((machine cfg n).addition name as p scope).run s = (.ok added, s₁) ∧
      t.sortedMembers = .ok lists ∧ lists.getLast? = some (.array last) ∧ s'.scopes[scope]? = some after ∧
      after.get? x = some (.type (.array (.union [last, added]))) ∧
      Ty.assignable (.array last) (.array (.union [last, added])) = true ∧
      Ty.assignable (.array added) (.array (.union [last, added])) = true ∧
      (∀ e, .array e ∈ t.members → (Ty.assignable (.array e) (.array (.union [last, added])) = true ↔
        Ty.assignable e (.union [last, added]) = true)) ∧
      ∀ e, t = .array e → Ty.assignable t (.array (.union [last, added])) = true := by
  have hhas : env.has x = true := by simp [Bindings.has, hx]
  have hcall := run_located_eq_ok h
  rw [run_bind_ok (run_eval_listMethod hn hne ht hs hx q r)] at hcall
  obtain ⟨⟨args, loose⟩, s₁, hargs, hcall⟩ := run_bind_eq_ok hcall
  obtain ⟨⟨keywords, spread⟩, s₂, hkeywords, hcall⟩ := run_bind_eq_ok hcall
  cases hkeywords
  obtain ⟨types, s₃, htypes, hcall⟩ := run_bind_eq_ok hcall
  obtain ⟨u, s₄, hmethod, hreturn⟩ := run_bind_eq_ok hcall
  cases hreturn
  obtain ⟨env₂, hs₂, hx₂⟩ := exists_bound_after hs hhas hargs htypes
  obtain ⟨lists, last, added, after, hsorted, hlast, hadded, hafter, hget⟩ :=
    exists_of_callMethod hn hne ht hs₂ hx₂ hmethod
  have haddition : ((machine cfg n).addition name as p scope).run s = (.ok added, s₃) := by
    refine (run_bind_ok hargs).trans ((run_bind_ok htypes).trans ?_)
    rw [hadded]
    rfl
  have htidy : ∀ a ∈ [last, added], a.Tidy := by
    have hheld : t.Tidy := (hk.scopes env (Array.mem_of_getElem? hs)).get? hx
    have hlists := Ty.closed_tidy.sortedMembers hheld lists hsorted
    have htypes := (tidy_addition hm name as p scope s hk).2 added (congrArg Prod.fst haddition)
    simpa using ⟨Ty.closed_tidy.array.mp (hlists _ (List.mem_of_getLast? hlast)), htypes⟩
  have hfits {a : Ty} (ha : a ∈ [last, added]) : Ty.assignable (.array a) (.array (.union [last, added])) = true :=
    Ty.assignable_array.mpr (Ty.Tidy.assignable_union htidy ha)
  refine ⟨added, s₃, lists, last, after, haddition, hsorted, hlast, hafter, hget, hfits (by simp), hfits (by simp),
    fun e _ => Ty.assignable_array, fun e he => ?_⟩
  obtain rfl : e = last := by
    subst he
    cases hsorted
    exact Ty.array.inj (Option.some.inj hlast)
  exact he ▸ hfits (by simp)

def listsSession : Session where
  scopes := #[[("items", .type (.oneOf [.array .number, .array .string]))]]
  frames := [{ depth := 0 }]

def appendTrue : Expr :=
  .call default (.member default (.name default "items") "append") [.constant default (.scalar (.boolean true))] []

theorem appendTrue_forgets_numbers :
    ∃ v s' after, ((machine listSetting 0).eval appendTrue 0).run listsSession = (.ok v, s') ∧
      s'.scopes[0]? = some after ∧ after.get? "items" = some (.type (.array (.union [.string, .bool true]))) ∧
      Ty.assignable (.array (.bool true)) (.array (.union [.string, .bool true])) = true ∧
      Ty.assignable (.array .number) (.array (.union [.string, .bool true])) = false := by
  have hmocks (name : String) (v : CaseValue) (hv : listSetting.mocks.resolve? name = some v) : v.type.Tidy := by
    rw [show listSetting.mocks = [] from rfl, MockChain.resolve?_nil] at hv
    cases hv
  have htidy : (Ty.oneOf [.array .number, .array .string]).Tidy := ⟨⟨by decide, by decide⟩, by decide⟩
  have hkeeps : listsSession.Keeps Ty.Tidy := by
    constructor <;> simp [listsSession, Env.All, Value.Meets, htidy]
  have hrun : ((machine listSetting 0).eval appendTrue 0).run listsSession = (.ok _, _) := rfl
  have hlists : ∀ a ∈ (Ty.oneOf [.array .number, .array .string]).members, ∃ e, a = .array e := by simp [Ty.members]
  obtain ⟨added, s₁, lists, last, after, hadded, hsorted, hlast, hafter, hget, _, hfits, _⟩ :=
    growing_method_holds hmocks hkeeps rfl rfl (by simp [Ty.members]) hlists (by decide) hrun
  obtain rfl : Ty.bool true = added := Except.ok.inj (congrArg Prod.fst hadded)
  obtain rfl : [.array .number, .array .string] = lists := Except.ok.inj hsorted
  obtain rfl : Ty.string = last := Ty.array.inj (Option.some.inj hlast)
  exact ⟨_, _, after, hrun, hafter, hget, hfits, rfl⟩

end Symbolic

end Casewise
