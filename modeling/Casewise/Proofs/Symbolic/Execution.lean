import Casewise.Proofs.Symbolic.Evaluation

namespace Casewise.Symbolic

namespace Renaming

variable (f : Nat → Nat)

theorem flatMap_breaks (flows : List Flow) :
    (flows.map (flow.apply f)).flatMap (·.breaks) = (flows.flatMap (·.breaks)).map f := by
  simp only [List.flatMap_map, List.map_flatMap, flow]

theorem flatMap_continues (flows : List Flow) :
    (flows.map (flow.apply f)).flatMap (·.continues) = (flows.flatMap (·.continues)).map f := by
  simp only [List.flatMap_map, List.map_flatMap, flow]

theorem filterMap_next (flows : List Flow) :
    (flows.map (flow.apply f)).filterMap (·.next) = (flows.filterMap (·.next)).map f := by
  simp only [List.filterMap_map, List.map_filterMap, flow, Function.comp_def]

theorem next_apply (x : Flow) : (flow.apply f x).next = x.next.map f := rfl

theorem rounds_apply (x : Flow) : (flow.apply f x).rounds = x.rounds.map f := by
  obtain ⟨_ | next, breaks, continues⟩ := x <;> rfl

theorem getD_apply (x : Option Flow) : (x.map (flow.apply f)).getD .left = flow.apply f (x.getD .left) := by
  cases x <;> rfl

theorem andThen_apply (x y : Flow) : (flow.apply f x).andThen (flow.apply f y) = flow.apply f (x.andThen y) := by
  simp only [Flow.andThen, flow, List.map_append]

end Renaming

namespace RunLogic

section

variable {ι : Type} (L : RunLogic ι) (start : L.World)

def Runs (s : Stmt) : Prop :=
  ∀ w scope, L.later start w → L.Body w → L.At w L.free scope →
    L.Judges .flow w (fun i => (L.machine i).exec s (L.number i scope)) L.FlowsFree

def RunsBlock (ss : List Stmt) : Prop :=
  ∀ w scope, L.later start w → L.Body w → L.At w L.free scope →
    L.Judges .flow w (fun i => (L.machine i).execBlock ss (L.number i scope)) L.FlowsFree

end

variable {ι : Type} {L : RunLogic ι} {start w w' : L.World} {scope : Nat}

namespace FlowsFree

theorem left : L.FlowsFree w .left := ⟨by simp [Flow.left], List.forall_mem_nil _, List.forall_mem_nil _⟩

theorem atEnd (hs : L.At w L.free scope) : L.FlowsFree w (.atEnd scope) :=
  { left with next := fun _ he => Option.some.inj he ▸ hs }

variable {a b : Flow}

theorem andThen (ha : L.FlowsFree w a) (hb : L.FlowsFree w b) : L.FlowsFree w (a.andThen b) where
  next := hb.next
  breaks := List.forall_mem_append.mpr ⟨ha.breaks, hb.breaks⟩
  continues := List.forall_mem_append.mpr ⟨ha.continues, hb.continues⟩

theorem ended (ha : L.FlowsFree w a) : L.FlowsFree w { a with next := none } :=
  { ha with next := left.next }

theorem rounds (ha : L.FlowsFree w a) : ∀ s ∈ a.rounds, L.At w L.free s :=
  List.forall_mem_append.mpr ⟨fun s hs => ha.next s (Option.mem_toList.mp hs), ha.continues⟩

theorem getD {o : Option Flow} (ho : ∀ a, o = some a → L.FlowsFree w a) : L.FlowsFree w (o.getD .left) := by
  cases o with
  | none => exact left
  | some a => exact ho a rfl

end FlowsFree

namespace Lawful

variable (h : L.Lawful)

include h

theorem leaves (flow : Flow) (hf : L.FlowsFree w flow) :
    L.Judges .flow w (fun i => Pure.pure (Renaming.flow.apply (L.number i) flow)) L.FlowsFree :=
  h.pureAs .flow flow hf

theorem left : L.Judges .flow w (fun _ => Pure.pure .left) L.FlowsFree := h.leaves .left .left

theorem atEnd (hs : L.At w L.free scope) :
    L.Judges .flow w (fun i => Pure.pure (.atEnd (L.number i scope))) L.FlowsFree := h.leaves (.atEnd scope) (.atEnd hs)

theorem envsOf {scopes : List Nat} (hs : ∀ s ∈ scopes, L.At w L.free s) :
    L.Judge w (fun i => (scopes.map (L.number i)).mapM Symbolic.envOf)
      fun w envs => ∀ env ∈ envs, Env.All (L.Fits w L.free) env := by
  have henvs := h.mapAs .scope (P := fun w env => Env.All (L.Fits w L.free) env) (fun hw he => h.all_later hw he)
    fun _ hw s hm => h.envOf (h.at_later hw (hs s hm))
  rwa [Renaming.list_fixed] at henvs

theorem join {flows : List Flow} (hf : ∀ f ∈ flows, L.FlowsFree w f) :
    L.Judges .flow w (fun i => join (flows.map (Renaming.flow.apply (L.number i)))) L.FlowsFree := by
  have hbreaks : ∀ s ∈ flows.flatMap (·.breaks), L.At w L.free s := fun s hs => by
    obtain ⟨f, hm, hs⟩ := List.mem_flatMap.mp hs
    exact (hf f hm).breaks s hs
  have hcontinues : ∀ s ∈ flows.flatMap (·.continues), L.At w L.free s := fun s hs => by
    obtain ⟨f, hm, hs⟩ := List.mem_flatMap.mp hs
    exact (hf f hm).continues s hs
  have hnext : ∀ s ∈ flows.filterMap (·.next), L.At w L.free s := fun s hs => by
    obtain ⟨f, hm, hs⟩ := List.mem_filterMap.mp hs
    exact (hf f hm).next s hs
  unfold Symbolic.join
  simp only [Renaming.flatMap_breaks, Renaming.flatMap_continues, Renaming.filterMap_next]
  generalize flows.filterMap (·.next) = scopes at hnext
  cases scopes with
  | nil => exact h.leaves ⟨none, _, _⟩ { FlowsFree.left with breaks := hbreaks, continues := hcontinues }
  | cons s scopes =>
    refine h.bind (h.envsOf hnext) fun w₁ envs hw₁ henvs => ?_
    refine h.bindAs (h.newScope ((h.values w₁ L.free).merge henvs)) fun w₂ last hw₂ hs => ?_
    have hw₂ := h.trans hw₁ hw₂
    exact h.leaves ⟨some last, _, _⟩ ⟨fun _ he => Option.some.inj he ▸ hs, fun s hm => h.at_later hw₂ (hbreaks s hm),
      fun s hm => h.at_later hw₂ (hcontinues s hm)⟩

theorem leaving (before : Env) {breaks : List Nat} (hb : ∀ s ∈ breaks, L.At w L.free s) :
    L.Judges (.list .flow) w (fun i => leaving before (breaks.map (L.number i)))
      fun w fs => ∀ f ∈ fs, L.FlowsFree w f := by
  refine h.mapAs .scope (fun hw hf => h.flows_later hw hf) fun w₁ hw₁ s hm => ?_
  refine h.bind (h.envOf (h.at_later hw₁ (hb s hm))) fun w₂ env _ henv => ?_
  exact h.bindAs (h.newScope ((h.values w₂ L.free).widenChanged before henv)) fun _ _ _ hs => h.atEnd hs

theorem joinLeaving {flow : Flow} (before : Env) {breaks : List Nat} (hf : L.FlowsFree w flow)
    (hb : ∀ s ∈ breaks, L.At w L.free s) :
    L.Judges .flow w (fun i => do
      let left ← Symbolic.leaving before (breaks.map (L.number i))
      Symbolic.join (Renaming.flow.apply (L.number i) flow :: left)) L.FlowsFree :=
  h.bindAs (h.leaving before hb) fun _ _ hw hfs => h.join (List.forall_mem_cons.mpr ⟨h.flows_later hw hf, hfs⟩)

theorem guarded (handlers : Bool) {x : ι → Run Flow} (hx : ∀ w', L.later w w' → L.Judges .flow w' x L.FlowsFree) :
    L.Judges .flow w (fun i => guarded handlers (x i)) L.FlowsFree := by
  unfold Symbolic.guarded
  split
  · refine h.bind (h.changeFrame (fun _ => rfl) fun _ _ => rfl) fun w₁ _ hw₁ _ => ?_
    refine h.bindAs (hx w₁ hw₁) fun w₂ flow hw₂ hflow => ?_
    exact h.bind (h.changeFrame (fun _ => rfl) fun _ _ => rfl) fun _ _ hw₃ _ =>
      h.leaves flow (h.flows_later hw₃ hflow)
  · exact hx w (h.refl w)

theorem scopeOr {env : Env} (he : env.All (L.Fits w L.free)) {o : Option Nat} (ho : ∀ s, o = some s → L.At w L.free s) :
    L.Judges .scope w (fun i => scopeOr env (o.map (L.number i))) fun w s => L.At w L.free s := by
  cases o with
  | none => exact h.newScope he
  | some s => exact h.pureAs _ s (ho s rfl)

theorem deleteName (target : Expr) (hs : L.At w L.free scope) :
    L.Judge w (fun i => deleteName (L.number i scope) target) fun _ _ => True := by
  unfold Symbolic.deleteName
  split
  · next n _ => exact h.changeEnv hs fun _ he => he.erase n
  · exact h.pure trivial

variable (j : L.Jumps L.free start)

include j

theorem evaluates (e : Expr) : L.Evaluates L.free start e := (h.evaluates_and_assigns j e (h.admits_free e)).1

theorem assigns (e : Expr) : L.Assigns L.free start e := (h.evaluates_and_assigns j e (h.admits_free e)).2

section

variable (hw : L.later start w) (hs : L.At w L.free scope)

include hw hs

theorem branches (test : Expr) :
    L.Judge w (fun i => (L.machine i).branches test (L.number i scope)) fun w p => p.2.All (L.Fits w L.free) := by
  unfold Machine.branches
  refine h.bind (h.forcedEval (h.evaluates j test) _ hw hs) fun w₁ t hw₁ _ => ?_
  exact h.bind (h.narrowed (h.at_later hw₁ hs)) fun _ _ _ hn => h.pure (hn.given _)

theorem assignAll (targets : List Expr) (value : Expr) :
    L.Judge w (fun i => (L.machine i).assignAll targets value (L.number i scope)) fun _ _ => True := by
  unfold Machine.assignAll
  split
  · next ts vs _ =>
    have hvalues : L.Judge w (fun i => vs.mapM fun v => (L.machine i).eval v (L.number i scope))
        fun w bs => ∀ v ∈ bs, L.Fits w L.free v :=
      h.mapM (fun hw hv => h.fits_later hw hv) fun w₁ hw₁ v _ =>
        h.evaluates j v w₁ scope (h.trans hw hw₁) (h.at_later hw₁ hs)
    refine h.bind hvalues fun w₁ values hw₁ hvalues => h.forM fun w₂ hw₂ p hp => ?_
    have hv := h.fits_later hw₂ (hvalues p.2 (List.of_mem_zip hp).2)
    have hw₂ := h.trans hw₁ hw₂
    exact h.assigns j p.1 w₂ scope p.2 (h.trans hw hw₂) (h.at_later hw₂ hs) hv
  · refine h.bind (h.evaluates j value w scope hw hs) fun w₁ v hw₁ hv => h.forM fun w₂ hw₂ t _ => ?_
    have hv := h.fits_later hw₂ hv
    have hw₂ := h.trans hw₁ hw₂
    exact h.assigns j t w₂ scope v (h.trans hw hw₂) (h.at_later hw₂ hs) hv

end

omit j in
theorem runsBlock {ss : List Stmt} (hss : ∀ s ∈ ss, L.Runs start s) : L.RunsBlock start ss := by
  induction ss with
  | nil => exact fun w scope _ _ hs => h.atEnd hs
  | cons s ss ih =>
    obtain ⟨hfirst, hrest⟩ := List.forall_mem_cons.mp hss
    intro w scope hw hb hs
    refine h.bindAs (h.endingPath (hfirst w scope hw hb hs)) fun w₁ flow hw₁ hflow => ?_
    obtain ⟨_ | next, breaks, continues⟩ := flow
    · exact h.leaves ⟨none, breaks, continues⟩ hflow
    · have hnext := hflow.next next rfl
      refine h.bindAs (ih hrest w₁ next (h.trans hw hw₁) (h.body_later hw₁ hb) hnext) fun w₂ last hw₂ hlast => ?_
      simp only [Renaming.andThen_apply]
      exact h.leaves _ (.andThen (h.flows_later hw₂ hflow) hlast)

omit j in
theorem execHandlers {handlers : List (Handler Stmt)} (hh : ∀ x ∈ handlers, L.RunsBlock start x.body) {entry : Env}
    (hw : L.later start w) (hb : L.Body w) (he : entry.All (L.Fits w L.free)) :
    L.Judges (.list .flow) w (fun i => (L.machine i).execHandlers entry handlers)
      fun w fs => ∀ f ∈ fs, L.FlowsFree w f := by
  induction handlers generalizing w with
  | nil => exact h.pureAs _ [] (List.forall_mem_nil _)
  | cons x handlers ih =>
    obtain ⟨hx, hrest⟩ := List.forall_mem_cons.mp hh
    obtain ⟨exception, name, body⟩ := x
    have hentry : (handlerEnv name entry).All (L.Fits w L.free) := by
      cases name with
      | none => exact he
      | some n => exact he.set (h.values w L.free).unknown n
    refine h.bindAs (h.newScope hentry) fun w₁ s hw₁ hs => h.bind h.handled? fun w₂ outer hw₂ _ => ?_
    refine h.bind (h.changeFrame (fun _ => rfl) fun _ _ => rfl) fun w₃ _ hw₃ _ => ?_
    have hw₂₃ := h.trans hw₂ hw₃
    have hw₁₃ := h.trans hw₁ hw₂₃
    refine h.bindAs (hx w₃ s (h.trans hw hw₁₃) (h.body_later hw₁₃ hb) (h.at_later hw₂₃ hs)) fun w₄ flow hw₄ hflow => ?_
    refine h.bind (h.changeFrame (fun _ => rfl) fun _ _ => rfl) fun w₅ _ hw₅ _ => ?_
    have hw₁₅ := h.trans hw₁₃ (h.trans hw₄ hw₅)
    refine h.bindAs (ih hrest (h.trans hw hw₁₅) (h.body_later hw₁₅ hb) (h.all_later hw₁₅ he))
      fun w₆ flows hw₆ hflows => ?_
    exact h.pureAs _ (flow :: flows) (List.forall_mem_cons.mpr ⟨h.flows_later (h.trans hw₅ hw₆) hflow, hflows⟩)

theorem execArms (arms : List (Arm Stmt)) (ha : ∀ x ∈ arms, L.RunsBlock start x.body) {subject : Ty}
    (ht : L.Holds subject) (hw : L.later start w) (hb : L.Body w) (hs : L.At w L.free scope) :
    L.Judges (.list .flow) w (fun i => (L.machine i).execArms subject arms (L.number i scope))
      fun w fs => ∀ f ∈ fs, L.FlowsFree w f := by
  induction arms generalizing w with
  | nil =>
    exact h.bindAs (h.copyScope hs) fun _ s _ hs =>
      h.pureAs (.list .flow) [.atEnd s] (List.forall_mem_singleton.mpr (.atEnd hs))
  | cons x arms ih =>
    obtain ⟨hx, hrest⟩ := List.forall_mem_cons.mp ha
    obtain ⟨pattern, guard, body⟩ := x
    refine h.bind (h.envOf hs) fun w₁ env hw₁ henv => ?_
    have hbound : L.Judge w₁ (fun _ => Symbolic.liftFault (pattern.bind subject env))
        fun _ bound => bound.All (L.Fits w₁ L.free) :=
      h.liftFault ((h.values w₁ L.free).bindPattern pattern ht henv)
    refine h.bind hbound fun w₂ bound hw₂ hbound => ?_
    refine h.bindAs (h.newScope (h.all_later hw₂ hbound)) fun w₃ inner hw₃ hinner => ?_
    have hw₁₃ := h.trans hw₁ (h.trans hw₂ hw₃)
    have hguard : L.Judge w₃ (fun i => guard.toList.forM fun g => do
        let _ ← (L.machine i).eval g (L.number i inner)
        return ()) fun _ _ => True := by
      refine h.forM fun w' hw' g _ => ?_
      have he := h.evaluates j g w' inner (h.trans hw (h.trans hw₁₃ hw')) (h.at_later hw' hinner)
      exact h.bind he fun _ _ _ _ => h.pure trivial
    refine h.bind hguard fun w₄ _ hw₄ _ => ?_
    have hw₁₄ := h.trans hw₁₃ hw₄
    refine h.bindAs (hx w₄ inner (h.trans hw hw₁₄) (h.body_later hw₁₄ hb) (h.at_later hw₄ hinner))
      fun w₅ flow hw₅ hflow => ?_
    split
    · exact h.pureAs _ [flow] (List.forall_mem_singleton.mpr hflow)
    · have hw₁₅ := h.trans hw₁₄ hw₅
      refine h.bindAs (ih hrest (h.trans hw hw₁₅) (h.body_later hw₁₅ hb) (h.at_later hw₁₅ hs))
        fun w₆ flows hw₆ hflows => ?_
      exact h.pureAs _ (flow :: flows) (List.forall_mem_cons.mpr ⟨h.flows_later hw₆ hflow, hflows⟩)

section

variable {p : Extent} {test target source : Expr} {body otherwise : List Stmt}

theorem runs_branch (hb : L.RunsBlock start body) (ho : L.RunsBlock start otherwise) :
    L.Runs start (.branch p test body otherwise) := by
  intro w scope hw hin hs
  refine h.bind (h.branches j hw hs test) fun w₁ (truth, ends) hw₁ hends => ?_
  refine h.bindAs (h.inScopeAs? hends.whenTrue fun w₂ inner hw₂ hinner =>
    hb w₂ inner (h.trans hw (h.trans hw₁ hw₂)) (h.body_later (h.trans hw₁ hw₂) hin) hinner)
    fun w₂ first hw₂ hfirst => ?_
  have hends := h.ends_later hw₂ hends
  have hw₂' := h.trans hw₁ hw₂
  refine h.bindAs (h.inScopeAs? hends.whenFalse fun w₃ inner hw₃ hinner =>
    ho w₃ inner (h.trans hw (h.trans hw₂' hw₃)) (h.body_later (h.trans hw₂' hw₃) hin) hinner)
    fun w₃ second hw₃ hsecond => ?_
  simp only [Renaming.option, Option.toList_map, ← List.map_append]
  refine h.join (List.forall_mem_append.mpr ⟨fun f hf => ?_, fun f hf => ?_⟩)
  · exact h.flows_later hw₃ (hfirst f (Option.mem_toList.mp hf))
  · exact hsecond f (Option.mem_toList.mp hf)

omit j in
theorem endLoop (ho : L.RunsBlock start otherwise) {before after : Env} {breaks : List Nat} (hw : L.later start w)
    (hin : L.Body w) (ha : after.All (L.Fits w L.free)) (hb : ∀ s ∈ breaks, L.At w L.free s) :
    L.Judges .flow w (fun i => do
      let last ← Symbolic.newScope (Env.widenChanged before after)
      let ended ← (L.machine i).execBlock otherwise last
      Symbolic.join (ended :: (← Symbolic.leaving before (breaks.map (L.number i))))) L.FlowsFree := by
  refine h.bindAs (h.newScope ((h.values w L.free).widenChanged before ha)) fun w₁ last hw₁ hlast => ?_
  refine h.bindAs (ho w₁ last (h.trans hw hw₁) (h.body_later hw₁ hin) hlast) fun w₂ ended hw₂ hended => ?_
  exact h.joinLeaving before hended fun s hs => h.at_later (h.trans hw₁ hw₂) (hb s hs)

theorem runs_forLoop (hb : L.RunsBlock start body) (ho : L.RunsBlock start otherwise) :
    L.Runs start (.forLoop p target source body otherwise) := by
  intro w scope hw hin hs
  refine h.bind (h.forcedEval (h.evaluates j source) _ hw hs) fun w₁ t hw₁ ht => ?_
  refine h.bind (P := fun _ => L.Holds) (h.liftFault (h.closed.itemsOf ht)) fun w₂ item hw₂ hitem => ?_
  have hw₂ := h.trans hw₁ hw₂
  refine h.bind (h.envOf (h.at_later hw₂ hs)) fun w₃ before hw₃ hbefore => ?_
  have hw₃ := h.trans hw₂ hw₃
  refine h.bindAs (h.copyScope (h.at_later hw₃ hs)) fun w₄ first hw₄ hfirst => ?_
  have hbefore := h.all_later hw₄ hbefore
  have hw₄ := h.trans hw₃ hw₄
  have hround : L.Judges (.option .flow) w₄ (fun i =>
      Symbolic.inScope? (if item.isNever then none else some before) fun inner => do
        (L.machine i).assign target (.type item.widen) inner
        (L.machine i).execBlock body inner) fun w o => ∀ f, o = some f → L.FlowsFree w f := by
    refine h.inScopeAs? (l := L.free) (fun env he => ?_) fun w₅ inner hw₅ hinner => ?_
    · split at he
      · cases he
      · exact Option.some.inj he ▸ hbefore
    · have hw₅ := h.trans hw₄ hw₅
      refine h.bind (h.assigns j target w₅ inner _ (h.trans hw hw₅) hinner (h.closed.widen hitem)) fun w₆ _ hw₆ _ => ?_
      have hw₅₆ := h.trans hw₅ hw₆
      exact hb w₆ inner (h.trans hw hw₅₆) (h.body_later hw₅₆ hin) (h.at_later hw₆ hinner)
  refine h.bindAs hround fun w₅ round hw₅ hround => ?_
  have hround := FlowsFree.getD hround
  simp only [Renaming.option, Renaming.getD_apply, Renaming.rounds_apply]
  refine h.bind (h.envsOf (List.forall_mem_cons.mpr ⟨h.at_later hw₅ hfirst, hround.rounds⟩)) fun w₆ envs hw₆ henvs => ?_
  have hw₆' := h.trans hw₄ (h.trans hw₅ hw₆)
  exact h.endLoop ho (h.trans hw hw₆') (h.body_later hw₆' hin) ((h.values w₆ L.free).merge henvs)
    fun s hs => h.at_later hw₆ (hround.breaks s hs)

theorem runs_whileLoop (hb : L.RunsBlock start body) (ho : L.RunsBlock start otherwise) :
    L.Runs start (.whileLoop p test body otherwise) := by
  intro w scope hw hin hs
  refine h.bind (h.branches j hw hs test) fun w₁ (truth, ends) hw₁ hends => ?_
  refine h.bind (h.envOf (h.at_later hw₁ hs)) fun w₂ before hw₂ _ => ?_
  have hends := h.ends_later hw₂ hends
  have hw₂ := h.trans hw₁ hw₂
  refine h.bindAs (h.inScopeAs? hends.whenTrue fun w₃ inner hw₃ hinner =>
    hb w₃ inner (h.trans hw (h.trans hw₂ hw₃)) (h.body_later (h.trans hw₂ hw₃) hin) hinner)
    fun w₃ round hw₃ hround => ?_
  have hround := FlowsFree.getD hround
  have hnumbers (i : ι) : (if truth == some true then [] else (round.getD .left).rounds.map (L.number i)) =
      (if truth == some true then [] else (round.getD .left).rounds).map (L.number i) := by
    split <;> rfl
  have hrounds : ∀ s ∈ (if truth == some true then [] else (round.getD .left).rounds), L.At w₃ L.free s := by
    split
    · exact nofun
    · exact hround.rounds
  simp only [Renaming.option, Renaming.getD_apply, Renaming.rounds_apply, hnumbers]
  refine h.bind (h.envsOf hrounds) fun w₄ rounds hw₄ hrounds => ?_
  have hbreaks : ∀ s ∈ (round.getD .left).breaks, L.At w₄ L.free s := fun s hs => h.at_later hw₄ (hround.breaks s hs)
  have henvs : ∀ env ∈ ends.whenFalse.toList ++ rounds, env.All (L.Fits w₄ L.free) := by
    refine List.forall_mem_append.mpr ⟨fun env he => ?_, hrounds⟩
    exact h.all_later (h.trans hw₃ hw₄) (hends.whenFalse env (Option.mem_toList.mp he))
  have hw₄ := h.trans hw₂ (h.trans hw₃ hw₄)
  split
  · exact h.bindAs (h.leaving before hbreaks) fun _ _ _ hfs => h.join hfs
  · exact h.endLoop ho (h.trans hw hw₄) (h.body_later hw₄ hin) ((h.values w₄ L.free).merge henvs) hbreaks

omit j in
theorem runs_trying {handlers : List (Handler Stmt)} {final : List Stmt} (hb : L.RunsBlock start body)
    (hh : ∀ x ∈ handlers, L.RunsBlock start x.body) (ho : L.RunsBlock start otherwise) (hf : L.RunsBlock start final) :
    L.Runs start (.trying p body handlers otherwise final) := by
  intro w scope hw hin hs
  refine h.bindAs (h.copyScope hs) fun w₁ inner hw₁ hinner => ?_
  have htried := h.guarded (!handlers.isEmpty) fun w₂ hw₂ =>
    hb w₂ inner (h.trans hw (h.trans hw₁ hw₂)) (h.body_later (h.trans hw₁ hw₂) hin) (h.at_later hw₂ hinner)
  refine h.bindAs htried fun w₂ tried hw₂ htried => ?_
  have hw₂ := h.trans hw₁ hw₂
  have hunhandled : L.Judges (.list .flow) w₂
      (fun i => (tried.next.toList.map (L.number i)).mapM fun next => (L.machine i).execBlock otherwise next)
      fun w fs => ∀ f ∈ fs, L.FlowsFree w f := by
    refine h.mapAs .scope (fun hw hf => h.flows_later hw hf) fun w₃ hw₃ next hm => ?_
    have hnext := h.at_later hw₃ (htried.next next (Option.mem_toList.mp hm))
    have hw₃ := h.trans hw₂ hw₃
    exact ho w₃ next (h.trans hw hw₃) (h.body_later hw₃ hin) hnext
  simp only [Renaming.next_apply, Option.toList_map]
  refine h.bindAs hunhandled fun w₃ unhandled hw₃ hunhandled => ?_
  have htried := h.flows_later hw₃ htried
  have hw₃ := h.trans hw₂ hw₃
  have hscopes : ∀ s ∈ scope :: tried.next.toList, L.At w₃ L.free s :=
    List.forall_mem_cons.mpr ⟨h.at_later hw₃ hs, fun s hm => htried.next s (Option.mem_toList.mp hm)⟩
  refine h.bind (h.envsOf hscopes) fun w₄ envs hw₄ henvs => ?_
  have hentry := (h.values w₄ L.free).merge henvs
  have hw₄' := h.trans hw₃ hw₄
  refine h.bindAs (h.execHandlers hh (h.trans hw hw₄') (h.body_later hw₄' hin) hentry) fun w₅ handled hw₅ hhandled => ?_
  have hw₄₅ := h.trans hw₄ hw₅
  have hflows : ∀ f ∈ ⟨none, tried.breaks, tried.continues⟩ :: unhandled ++ handled, L.FlowsFree w₅ f := by
    refine List.forall_mem_append.mpr ⟨List.forall_mem_cons.mpr ⟨?_, fun f hf => ?_⟩, hhandled⟩
    · exact (h.flows_later hw₄₅ htried).ended
    · exact h.flows_later hw₄₅ (hunhandled f hf)
  have hnumbers (i : ι) : { Renaming.flow.apply (L.number i) tried with next := none } ::
      Renaming.flow.list.apply (L.number i) unhandled ++ Renaming.flow.list.apply (L.number i) handled =
      ({ tried with next := none } :: unhandled ++ handled).map (Renaming.flow.apply (L.number i)) := by
    rw [List.map_append]
    rfl
  simp only [hnumbers]
  refine h.bindAs (h.join hflows) fun w₆ met hw₆ hmet => ?_
  split
  · exact h.leaves met hmet
  · have hw₄₆ := h.trans hw₅ hw₆
    refine h.bindAs (h.scopeOr (h.all_later hw₄₆ hentry) hmet.next) fun w₇ first hw₇ hfirst => ?_
    have hw₇' := h.trans hw₄' (h.trans hw₄₆ hw₇)
    refine h.bindAs (hf w₇ first (h.trans hw hw₇') (h.body_later hw₇' hin) hfirst) fun w₈ last hw₈ hlast => ?_
    have hmet := h.flows_later (h.trans hw₇ hw₈) hmet
    obtain ⟨_ | next, breaks, continues⟩ := met
    · have hended := h.leaves _ (.andThen hmet hlast.ended)
      simp only [← Renaming.andThen_apply] at hended
      exact hended
    · have hended := h.leaves _ (.andThen hmet hlast)
      simp only [← Renaming.andThen_apply] at hended
      exact hended

theorem runs_withBlock {items : List (Expr × Option Expr)} (hb : L.RunsBlock start body) :
    L.Runs start (.withBlock p items body) := by
  intro w scope hw hin hs
  refine h.bind (h.forM fun w₁ hw₁ item _ => ?_) fun w₁ _ hw₁ _ => ?_
  · refine h.bind (h.evaluates j item.1 w₁ scope (h.trans hw hw₁) (h.at_later hw₁ hs)) fun w₂ _ hw₂ _ => ?_
    have hw₂ := h.trans hw₁ hw₂
    obtain ⟨e, target⟩ := item
    cases target with
    | none => exact h.pure trivial
    | some t => exact h.assigns j t w₂ scope .unknown (h.trans hw hw₂) (h.at_later hw₂ hs) h.closed.unknown
  · exact hb w₁ scope (h.trans hw hw₁) (h.body_later hw₁ hin) (h.at_later hw₁ hs)

theorem runs_augmented {value : Expr} (op : BinaryOp) : L.Runs start (.augmented p target op value) := by
  intro w scope hw hin hs
  refine h.bind (h.forcedEval (h.evaluates j target) _ hw hs) fun w₁ current hw₁ hcurrent => ?_
  refine h.bind (h.forcedEval (h.evaluates j value) _ (h.trans hw hw₁) (h.at_later hw₁ hs))
    fun w₂ operand hw₂ hoperand => ?_
  have hbinary := h.raw.binary op (h.raw_of_holds hcurrent) (h.raw_of_holds hoperand)
  have hresult := h.located (w := w₂) L.setting.module p (h.computed hbinary)
  refine h.bind hresult fun w₃ t hw₃ ht => ?_
  have hw₃ := h.trans hw₁ (h.trans hw₂ hw₃)
  refine h.bind (h.assigns j target w₃ scope (.type t) (h.trans hw hw₃) (h.at_later hw₃ hs) ht) fun _ _ hw₄ _ => ?_
  exact h.atEnd (h.at_later (h.trans hw₃ hw₄) hs)

theorem runs_returns (value : Option Expr) : L.Runs start (.returns p value) := by
  intro w scope hw hin hs
  cases value with
  | none =>
    exact h.bind (h.recordReturn hin (h.closed.primitive _)) fun _ _ _ _ => h.left
  | some e =>
    refine h.bind (h.forcedEval (h.evaluates j e) _ hw hs) fun w₁ t hw₁ ht => ?_
    exact h.bind (h.recordReturn (h.body_later hw₁ hin) ht) fun _ _ _ _ => h.left

theorem runs_asserting (message : Option Expr) : L.Runs start (.asserting p test message) := by
  intro w scope hw hin hs
  refine h.bind (h.branches j hw hs test) fun w₁ (truth, ends) hw₁ hends => ?_
  dsimp only
  split
  · next env he => exact h.bindAs (h.newScope (hends.whenTrue env he)) fun _ _ _ hs => h.atEnd hs
  · exact h.bind (h.recordRaise _) fun _ _ _ _ => h.left

omit j in
theorem runs_raising (exception cause : Option Expr) : L.Runs start (.raising p exception cause) := by
  intro w scope hw hin hs
  cases exception with
  | none =>
    exact h.bind h.handled? fun _ _ _ _ => h.bind (h.recordRaise _) fun _ _ _ _ => h.left
  | some e =>
    exact h.bind (h.recordRaise _) fun _ _ _ _ => h.left

end

theorem runs (s : Stmt) : L.Runs start s := by
  induction s using Stmt.induct_parts with
  | step s ih =>
    have block {ss : List Stmt} (hss : ∀ c ∈ ss, c ∈ s.parts) : L.RunsBlock start ss :=
      h.runsBlock fun c hc => ih c (hss c hc)
    have binding (name : String) (v : Value) (hv : ∀ w, L.Fits w L.free v)
        (hi : ∀ m : Machine, ∀ scope, m.exec s scope =
          (do Symbolic.assignName scope name v; return .atEnd scope)) : L.Runs start s := by
      intro w scope hw hin hs
      simp only [hi]
      exact h.bind (h.assignName name hs (hv w)) fun _ _ hw₁ _ => h.atEnd (h.at_later hw₁ hs)
    have nothing (hi : ∀ m : Machine, ∀ scope, m.exec s scope = Pure.pure (.atEnd scope)) : L.Runs start s := by
      intro w scope hw hin hs
      simp only [hi]
      exact h.atEnd hs
    cases s with
    | expr p e =>
      intro w scope hw hin hs
      exact h.bind (h.evaluates j e w scope hw hs) fun _ _ hw₁ _ => h.atEnd (h.at_later hw₁ hs)
    | assign p targets value =>
      intro w scope hw hin hs
      exact h.bind (h.assignAll j hw hs targets value) fun _ _ hw₁ _ => h.atEnd (h.at_later hw₁ hs)
    | augmented p target op value => exact h.runs_augmented j op
    | annotated p target annotation value =>
      cases value with
      | none => exact nothing fun _ _ => rfl
      | some e =>
        intro w scope hw hin hs
        refine h.bind (h.evaluates j e w scope hw hs) fun w₁ v hw₁ hv => ?_
        refine h.bind (h.assigns j target w₁ scope v (h.trans hw hw₁) (h.at_later hw₁ hs) hv) fun _ _ hw₂ _ => ?_
        exact h.atEnd (h.at_later (h.trans hw₁ hw₂) hs)
    | returns p value => exact h.runs_returns j value
    | branch p test body otherwise =>
      exact h.runs_branch j (block fun c hc => List.mem_append_left _ hc) (block fun c hc => List.mem_append_right _ hc)
    | forLoop p target source body otherwise =>
      exact h.runs_forLoop j (block fun c hc => List.mem_append_left _ hc)
        (block fun c hc => List.mem_append_right _ hc)
    | whileLoop p test body otherwise =>
      exact h.runs_whileLoop j (block fun c hc => List.mem_append_left _ hc)
        (block fun c hc => List.mem_append_right _ hc)
    | raising p exception cause => exact h.runs_raising exception cause
    | trying p body handlers otherwise final =>
      refine h.runs_trying (block fun c hc => ?_) (fun x hx => block fun c hc => ?_) (block fun c hc => ?_)
        (block fun c hc => ?_)
      · simp [Stmt.parts, hc]
      · have hbody := List.mem_flatMap.mpr ⟨x, hx, hc⟩
        exact List.mem_append_left _ (List.mem_append_left _ (List.mem_append_right _ hbody))
      · simp [Stmt.parts, hc]
      · simp [Stmt.parts, hc]
    | asserting p test message => exact h.runs_asserting j message
    | breaking p =>
      intro w scope hw hin hs
      exact h.bindAs (h.copyScope hs) fun _ s _ hc =>
        h.leaves ⟨none, [s], []⟩ { FlowsFree.left with breaks := List.forall_mem_singleton.mpr hc }
    | continuing p =>
      intro w scope hw hin hs
      exact h.bindAs (h.copyScope hs) fun _ s _ hc =>
        h.leaves ⟨none, [], [s]⟩ { FlowsFree.left with continues := List.forall_mem_singleton.mpr hc }
    | function f =>
      intro w scope hw hin hs
      refine h.bind (h.newClosure (c := ⟨f.name, f.params, f.body, scope⟩) (h.closes_free _) hs) fun w₁ v hw₁ hv => ?_
      refine h.bind (h.assignName f.name (h.at_later hw₁ hs) hv) fun _ _ hw₂ _ => ?_
      exact h.atEnd (h.at_later (h.trans hw₁ hw₂) hs)
    | asyncFunction f => exact binding f.name .unknown (fun _ => h.closed.unknown) fun _ _ => rfl
    | classDef p name exprs body => exact binding name .unknown (fun _ => h.closed.unknown) fun _ _ => rfl
    | withBlock p items body => exact h.runs_withBlock j (block fun c hc => hc)
    | matching p subject arms =>
      intro w scope hw hin hs
      refine h.bind (h.forcedEval (h.evaluates j subject) _ hw hs) fun w₁ t hw₁ ht => ?_
      have harms := h.execArms j arms (fun x hx => block fun c hc => List.mem_flatMap.mpr ⟨x, hx, hc⟩) ht
        (h.trans hw hw₁) (h.body_later hw₁ hin) (h.at_later hw₁ hs)
      exact h.bindAs harms fun _ _ _ hflows => h.join hflows
    | delete p targets =>
      intro w scope hw hin hs
      refine h.bind (h.forM fun _ hw₁ target _ => h.deleteName target (h.at_later hw₁ hs)) fun _ _ hw₁ _ => ?_
      exact h.atEnd (h.at_later hw₁ hs)
    | importing p what =>
      intro w scope hw hin hs
      refine h.bind (h.forM fun _ hw₁ b _ => ?_) fun _ _ hw₁ _ => h.atEnd (h.at_later hw₁ hs)
      exact h.assignName b.1 (h.at_later hw₁ hs) (v := .external b.1 b.2) trivial
    | other p exprs body => exact nothing fun _ _ => rfl

theorem execBlock (ss : List Stmt) : L.RunsBlock start ss := h.runsBlock fun s _ => h.runs j s

theorem runFunction (name : String) {args : List Ty} (hw : L.later start w) (hd : L.Depth w 0)
    (ha : ∀ t ∈ args, L.Holds t) :
    L.Judge w (fun i => runFunction (L.machine i) name args)
      fun _ r => L.Holds r.returns ∧ ∀ t ∈ r.params, L.Holds t := by
  unfold Symbolic.runFunction
  dsimp only [machine_module]
  split
  · exact h.throw nofun
  · next f _ =>
    have hargs : ∀ v ∈ args.map Value.type, L.Fits w L.free v := List.forall_mem_map.mpr ha
    refine h.bind (h.bindArgs j hw (h.closes_free f.params) f.name hargs (by simp [Env.All]) _
      fun _ => Stop.noConfusion) fun w₁ env hw₁ henv => ?_
    have hparams : L.Judge w₁
        (fun i => f.params.names.mapM fun n => (L.machine i).force ((env.get? n).getD .unknown) f.pos)
        fun _ ts => ∀ t ∈ ts, L.Holds t := by
      refine h.mapM (fun _ => id) fun w₂ hw₂ n _ => h.force (l := L.free) _ ?_
      cases hn : env.get? n with
      | none => exact h.closed.unknown
      | some v => exact h.fits_later hw₂ (henv.get? hn)
    refine h.bind hparams fun w₂ params hw₂ hparams => ?_
    have hw₁₂ := h.trans hw₁ hw₂
    have hcall := j.call f (h.trans hw hw₁₂) (h.depth_later hw₁₂ hd) (h.all_later hw₂ henv)
    exact h.bind hcall fun _ _ _ ho => h.pure ⟨ho, hparams⟩

end Lawful

end RunLogic

end Casewise.Symbolic
