import Casewise.Proofs.Symbolic.Touched

namespace Casewise

namespace Env

variable {env : Env} {n : String} {t : Ty}

def SameNames (env : Env) (r : Narrowed) : Prop := ∀ e ∈ r.envs, e.names = env.names

theorem sameNames_both : env.SameNames (.both env) := by simp [SameNames, Narrowed.envs, Narrowed.both]

theorem sameNames_split (h : env.typeOf? n = some t) (a b : Ty) : env.SameNames (env.split n a b) := by
  intro e he
  rw [envs_split] at he
  obtain ⟨u, _, rfl⟩ := List.mem_map.mp he
  exact names_set_of_bound (boundType?_of_typeOf? h)

theorem SameNames.swap {r : Narrowed} (h : env.SameNames r) : env.SameNames r.swap :=
  fun e he => h e (List.perm_append_comm.mem_iff.mp he)

theorem SameNames.passing {r : Narrowed} (h : env.SameNames r) {op : LogicalOp} :
    ∀ e ∈ r.passing op, e.names = env.names := by
  intro e he
  cases op with
  | and => exact h e (List.mem_append_left _ (Option.mem_toList.mpr he))
  | or => exact h e (List.mem_append_right _ (Option.mem_toList.mpr he))

theorem sameNames_narrowTruth (n : String) : Yields (env.narrowTruth n) env.SameNames := by
  unfold narrowTruth
  split
  · next t ht => exact yields_bind fun a => yields_bind fun b => yields_ok (sameNames_split ht a b)
  · exact yields_ok sameNames_both

theorem sameNames_narrowNone (n : String) (op : CompareOp) : Yields (env.narrowNone n op) env.SameNames := by
  unfold narrowNone
  split
  · next t ht =>
    refine yields_bind fun a => yields_bind fun b => ?_
    have hsplit := sameNames_split ht a b
    cases op with
    | is | eq => exact yields_ok hsplit
    | isNot | ne => exact yields_ok hsplit.swap
    | _ => exact yields_ok sameNames_both
  · exact yields_ok sameNames_both

theorem sameNames_narrowInstance (n : String) (classes : List KnownClass) :
    Yields (env.narrowInstance n classes) env.SameNames := by
  unfold narrowInstance
  split
  · next t _ _ _ ht => exact yields_bind fun a => yields_bind fun b => yields_ok (sameNames_split ht a b)
  · exact yields_ok sameNames_both

end Env

theorem Expr.sameNames_narrow (e : Expr) (env : Env) : Yields (e.narrow env) env.SameNames := by
  refine narrow.induct_unfolding (fun _ env result => Yields result env.SameNames)
    (fun _ _ start result => Yields result fun last => ∀ e ∈ last, ∃ first ∈ start, e.names = Bindings.names first)
    ?not ?logical ?name ?none ?order ?shadowed ?isinstance ?other ?last ?operand ?left e env
  case not =>
    intro _ e env ih
    exact ih.bind fun r hr => yields_ok hr.swap
  case logical =>
    intro _ op es env ih
    refine ih.bind fun last hlast => ?_
    have hbeside : env.SameNames ⟨last, some env⟩ := by
      intro e he
      rcases List.mem_append.mp he with he | he
      · obtain ⟨first, hfirst, hnames⟩ := hlast e (Option.mem_toList.mp he)
        rw [hnames, Option.mem_some.mp hfirst]
      · rw [List.mem_singleton.mp he]
    cases op with
    | and => exact yields_ok hbeside
    | or => exact yields_ok hbeside.swap
  case name =>
    intro _ n env
    exact Env.sameNames_narrowTruth n
  case none =>
    intro _ _ n op _ env _
    exact Env.sameNames_narrowNone n op
  case order =>
    intro _ _ _ _ _ env _
    exact yields_ok Env.sameNames_both
  case shadowed =>
    intro _ _ _ _ _ _ env _
    exact yields_ok Env.sameNames_both
  case isinstance =>
    intro _ _ _ n classes _ env _
    exact Env.sameNames_narrowInstance n (KnownClass.ofExpr classes)
  case other =>
    intro _ env _ _ _ _ _
    exact yields_ok Env.sameNames_both
  case last =>
    intro _ start
    exact yields_ok fun e he => ⟨e, he, rfl⟩
  case operand =>
    intro op _ _ env ih ihs
    refine ih.bind fun r hr => ?_
    intro last hlast e he
    obtain ⟨first, hfirst, hnames⟩ := ihs r last hlast e he
    exact ⟨env, rfl, hnames.trans (hr.passing first hfirst)⟩
  case left =>
    intro _ _ _
    exact yields_ok fun e he => absurd he (by simp)

namespace Symbolic

variable {cfg : Setting} {n scope : Nat} {s s' : Session} {p : Extent} {op : LogicalOp} {e : Expr} {es : List Expr}

theorem evalLogical_cons (cfg : Setting) (n : Nat) (op : LogicalOp) (e : Expr) (es : List Expr) (scope : Nat) :
    ∃ f : Value → Run (List Ty), (machine cfg n).evalLogical op (e :: es) scope = (machine cfg n).eval e scope >>= f ∧
      ∀ v, Apart (f v) := by
  cases es with
  | nil =>
    refine ⟨_, bind_assoc _ _ _, fun v => ?_⟩
    exact (Apart.force cfg n v e.pos).bind fun t => .pure [t]
  | cons e' es =>
    refine ⟨_, bind_assoc _ _ _, fun v => (Apart.force cfg n v e.pos).bind fun t => ?_⟩
    split
    · exact .pure [t]
    · refine (Apart.liftFault _).bind fun part => (Apart.narrowed e scope).bind fun ends => ?_
      exact (Apart.logicalIn cfg n _ op _).bind fun _ => .pure _

theorem exists_of_branches {truth : Option Bool} {ends : Narrowed}
    (h : ((machine cfg n).branches (.logical p op (e :: es)) scope).run s = (.ok (truth, ends), s')) :
    ∃ v s₁ r, ((machine cfg n).eval e scope).run s = (.ok v, s₁) ∧ s'.Retains s₁.scopes ∧
      (Expr.logical p op (e :: es)).narrow ((s'.scopes[scope]?).getD []) = .ok r ∧ ends = r.given truth := by
  obtain ⟨f, hf, hapart⟩ := evalLogical_cons cfg n op e es scope
  obtain ⟨t, s₂, htest, h⟩ := run_bind_eq_ok h
  obtain ⟨r, s₃, hnarrowed, hends⟩ := run_bind_eq_ok h
  obtain ⟨u, s₄, heval, hforce⟩ := run_bind_eq_ok htest
  obtain ⟨ts, s₅, hlogical, hvalue⟩ := run_bind_eq_ok (run_located_eq_ok heval)
  rw [hf] at hlogical
  obtain ⟨v, s₁, hfirst, hrest⟩ := run_bind_eq_ok hlogical
  have hretains := hapart v s₁
  rw [hrest] at hretains
  obtain ⟨hnarrow, rfl⟩ := run_liftFault_eq_ok hnarrowed
  cases hvalue
  cases hforce
  cases hends
  exact ⟨v, s₁, r, hfirst, hretains, hnarrow, rfl⟩

theorem has_of_assign {q : Extent} {x : String} {value : Expr} {v : Value} {env after : Env}
    (hs : s.scopes[scope]? = some env) (h : ((machine cfg n).eval (.assign q x value) scope).run s = (.ok v, s'))
    (hafter : s'.scopes[scope]? = some after) : after.has x = true := by
  obtain ⟨u, s₁, heval, hassign⟩ := run_bind_eq_ok (run_located_eq_ok h)
  obtain ⟨_, between, hbetween, _⟩ := touched_eval cfg n (fun _ _ => trivial) hs fun b _ => b.2.aims_true
  rw [heval] at hbetween
  cases hassign
  rw [Array.getElem?_modify, if_pos rfl, hbetween] at hafter
  obtain rfl := Option.some.inj hafter
  simp [Bindings.has]

/-- The block of an `if` whose test is a conjunction starts with the names that are bound once the first operand is
evaluated. A name that the first operand assigns is among them; a name that it does not touch is bound only if it was
before the statement, whatever the other operands assign. -/
theorem conjunction_block_binds {cfg : Setting} {n : Nat} {p : Extent} {c : Expr} {rest : List Expr} (q : Extent)
    (body otherwise : List Stmt) {scope : Nat} {s s' : Session} {env start : Env} {truth : Option Bool}
    {ends : Narrowed} (hs : s.scopes[scope]? = some env)
    (hbranches : ((machine cfg n).branches (.logical p .and (c :: rest)) scope).run s = (.ok (truth, ends), s'))
    (hentered : ends.whenTrue = some start) :
    (((machine cfg n).exec (.branch q (.logical p .and (c :: rest)) body otherwise) scope).run s =
      (do
        let whenTrue ← (machine cfg n).execBlock body (← newScope start)
        let whenFalse ← inScope? ends.whenFalse ((machine cfg n).execBlock otherwise)
        join (whenTrue :: whenFalse.toList)).run s') ∧
    ∃ v s₁ after, ((machine cfg n).eval c scope).run s = (.ok v, s₁) ∧ s₁.scopes[scope]? = some after ∧
      (∀ x, start.has x = after.has x) ∧
      (∀ pos x value, c = .assign pos x value → start.has x = true) ∧
      (env.All (fun v => Machine.isMethod v = false) → ∀ x, ¬ c.Touches x → start.has x = env.has x) := by
  obtain ⟨v, s₁, r, hfirst, hretains, hnarrow, rfl⟩ := exists_of_branches hbranches
  obtain ⟨_, after, hafter, _⟩ := touched_eval cfg n (e := c) (fun _ _ => trivial) hs fun b _ => b.2.aims_true
  rw [hfirst] at hafter
  have hsame : s'.scopes[scope]? = some after :=
    (hretains scope (Array.getElem?_eq_some_iff.mp hafter).1).trans hafter
  have hnames : start.names = after.names := by
    rw [hsame] at hnarrow
    refine Expr.sameNames_narrow _ _ r hnarrow start (List.mem_append_left _ (Option.mem_toList.mpr ?_))
    unfold Narrowed.given at hentered
    split at hentered
    · cases hentered
    · exact hentered
  have hhas := Bindings.has_congr hnames
  refine ⟨?_, v, s₁, after, hfirst, hafter, hhas, fun pos x value hc => ?_, fun hm x hx => ?_⟩
  · refine (run_bind_ok hbranches).trans ?_
    dsimp only
    rw [hentered]
    simp only [inScope?, bind_assoc, pure_bind, Option.toList_some, List.singleton_append]
  · subst hc
    rw [hhas]
    exact has_of_assign hs hfirst hafter
  · obtain ⟨_, found, hfound, hchanges⟩ := touched_eval cfg n (e := c) (fun _ => id) hs (Env.aims_of_plain hm)
    rw [hfirst, hafter] at hfound
    obtain rfl := Option.some.inj hfound
    rw [hhas, Bindings.has, hchanges.kept x hx, Bindings.has]

def laterAssign : Expr :=
  .logical default .and
    [.constant default (.scalar (.int 1)), .assign default "found" (.constant default (.scalar (.int 2)))]

theorem laterAssign_leaves_unbound :
    ∃ truth ends s' start, ((machine listSetting 0).branches laterAssign 0).run listSession = (.ok (truth, ends), s') ∧
      ends.whenTrue = some start ∧ start.has "found" = false := by
  have hscope : listSession.scopes[0]? = some [("items", .type (.array .number)), ("label", .type .string)] := rfl
  have hbranches : ((machine listSetting 0).branches laterAssign 0).run listSession = (.ok (_, _), _) := rfl
  have huntouched : ¬ (Expr.constant default (.scalar (.int 1))).Touches "found" := by
    intro h
    cases h with
    | own h => cases h
    | operand hc _ => cases hc
  obtain ⟨_, _, _, _, _, _, _, _, hbound⟩ := conjunction_block_binds default [] [] hscope hbranches rfl
  exact ⟨_, _, _, _, hbranches, rfl, hbound (by simp [Env.All, Machine.isMethod]) "found" huntouched⟩

end Symbolic

end Casewise
