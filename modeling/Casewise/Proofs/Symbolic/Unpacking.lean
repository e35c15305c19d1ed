import Casewise.Proofs.Symbolic.Actions
import Casewise.Proofs.Symbolic.Evaluation

namespace Casewise

inductive Ty.Unpacks : Ty → List Ty → Prop
  | tuple (items : List Ty) : Unpacks (.tuple items) items
  | alike {rows : List (List Ty)} {items : List Ty} (nonempty : rows ≠ [])
      (length : ∀ row ∈ rows, row.length = items.length)
      (position : ∀ (i : Nat) (t : Ty), items[i]? = some t → t = union (rows.filterMap (·[i]?))) :
      Unpacks (.oneOf (rows.map .tuple)) items

def Expr.target? : Expr → Option (String × Bool)
  | .name _ n => some (n, false)
  | .starred _ (.name _ n) => some (n, true)
  | _ => none

namespace Unpacking

def Misfits (targets : List (String × Bool)) (count : Nat) : Prop :=
  if targets.any (·.2) then count < targets.countP (!·.2) else count ≠ targets.length

/-- What each target is given: the starred one takes all that the others leave over. -/
inductive Deals : List (String × Bool) → List Ty → Bindings Ty → Prop
  | plain {names : List String} {items : List Ty} (length : names.length = items.length) :
      Deals (names.map (·, false)) items (names.zip items)
  | starred {before after : List String} (star : String) {lead trail : List Ty} (middle : List Ty)
      (leading : before.length = lead.length) (trailing : after.length = trail.length) :
      Deals (before.map (·, false) ++ (star, true) :: after.map (·, false)) (lead ++ middle ++ trail)
        (before.zip lead ++ (star, .array (Ty.union middle)) :: after.zip trail)

theorem eq_map_of_no_star {targets : List (String × Bool)} (h : targets.countP (·.2) = 0) :
    targets = (targets.map (·.1)).map (·, false) := by
  rw [List.countP_eq_zero] at h
  rw [List.map_map]
  refine (List.map_id'' (fun _ => rfl) targets).symm.trans (List.map_congr_left fun target ht => ?_)
  exact Prod.ext rfl (Bool.eq_false_iff.mpr (h target ht))

theorem targets_cases {targets : List (String × Bool)} (one : targets.countP (·.2) ≤ 1) :
    (∃ names : List String, targets = names.map (·, false)) ∨
      ∃ (before : List String) (star : String) (after : List String),
        targets = before.map (·, false) ++ (star, true) :: after.map (·, false) := by
  induction targets with
  | nil => exact .inl ⟨[], rfl⟩
  | cons target targets ih =>
    obtain ⟨n, b⟩ := target
    cases b with
    | true =>
      rw [List.countP_cons_of_pos rfl] at one
      exact .inr ⟨[], n, _, congrArg _ (eq_map_of_no_star (by omega))⟩
    | false =>
      rw [List.countP_cons_of_neg Bool.false_ne_true] at one
      rcases ih one with ⟨names, rfl⟩ | ⟨before, star, after, rfl⟩
      · exact .inl ⟨n :: names, rfl⟩
      · exact .inr ⟨n :: before, star, after, rfl⟩

theorem misfits_plain {names : List String} {count : Nat} :
    Misfits (names.map (·, false)) count ↔ count ≠ names.length := by
  simp [Misfits]

theorem misfits_starred {before after : List String} {star : String} {count : Nat} :
    Misfits (before.map (·, false) ++ (star, true) :: after.map (·, false)) count ↔
      count < before.length + after.length := by
  have hcount (names : List String) : (names.map fun n => (n, false)).countP (!·.2) = names.length := by
    rw [List.countP_eq_length.mpr (by simp), List.length_map]
  simp [Misfits, hcount]

theorem sameShape_of_unpacks {t : Ty} {items : List Ty} (h : t.Unpacks items) : t.sameShape = .tuple items := by
  cases h with
  | tuple => rfl
  | @alike rows _ nonempty length position =>
    have hrows : (rows.map Ty.tuple).mapM Ty.sameShape.tupleItems? = some rows := by
      rw [mapM_eq_some_iff, List.map_map]
      rfl
    obtain ⟨row, rest, rfl⟩ := List.exists_cons_of_ne_nil nonempty
    have hrest : rest.all (·.length == row.length) = true := by
      simp only [List.all_eq_true, beq_iff_eq]
      intro other hother
      rw [length other (List.mem_cons_of_mem _ hother), length row List.mem_cons_self]
    unfold Ty.sameShape
    simp only [hrows, hrest, if_true]
    congr 1
    apply List.ext_getElem
    · simp [length row]
    · intro i _ hi
      simpa using (position i items[i] (List.getElem?_eq_getElem hi)).symm

theorem unpackedItems_plain (items : List Ty) (count : Nat) :
    Ty.unpackedItems items (List.replicate count false) =
      if count < items.length then Fault.of (.surplusValues count)
      else if items.length < count then Fault.of (.missingValues count items.length)
      else .ok items := by
  simp [Ty.unpackedItems]

theorem findIdx?_star (a b : Nat) :
    (List.replicate a false ++ true :: List.replicate b false).findIdx? id = some a := by
  simp [List.findIdx?_append, List.findIdx?_cons]

theorem zip_unstarred (trail : List Ty) : trail.zip (List.replicate trail.length false) = trail.map (·, false) := by
  induction trail with
  | nil => rfl
  | cons t trail ih => exact congrArg ((t, false) :: ·) ih

theorem unpackedItems_starred (lead middle trail : List Ty) :
    Ty.unpackedItems (lead ++ middle ++ trail)
        (List.replicate lead.length false ++ true :: List.replicate trail.length false) =
      .ok (lead ++ .array (Ty.union middle) :: trail) := by
  have hcount : (List.replicate lead.length false ++ true :: List.replicate trail.length false).length =
      lead.length + trail.length + 1 := by
    rw [List.length_append, List.length_cons, List.length_replicate, List.length_replicate, Nat.add_assoc]
  have hrest : (List.replicate lead.length false ++ true :: List.replicate trail.length false).drop (lead.length + 1) =
      List.replicate trail.length false := by
    rw [List.drop_append]
    simp
  have hafter : lead.length + trail.length + 1 - lead.length - 1 = trail.length := by omega
  have hcut : (lead ++ middle ++ trail).length - trail.length = (lead ++ middle).length := by
    rw [List.length_append, Nat.add_sub_cancel]
  unfold Ty.unpackedItems
  simp only [findIdx?_star, hcount, hrest, hafter]
  rw [if_neg (by simp), hcut, List.take_left, List.drop_left, List.drop_left, List.append_assoc lead, List.take_left,
    zip_unstarred]
  simp [Function.comp_def]

theorem unpackedItems_few {items : List Ty} {a b : Nat} (few : items.length < a + b) :
    Ty.unpackedItems items (List.replicate a false ++ true :: List.replicate b false) =
      Fault.of (.missingValuesStarred (a + b) items.length) := by
  have hcount : (List.replicate a false ++ true :: List.replicate b false).length - 1 = a + b := by simp
  unfold Ty.unpackedItems
  simp only [findIdx?_star, hcount]
  rw [if_pos few]

theorem exists_parts {items : List Ty} {a b : Nat} (enough : a + b ≤ items.length) :
    ∃ lead middle trail, items = lead ++ middle ++ trail ∧ a = lead.length ∧ b = trail.length := by
  refine ⟨items.take a, (items.drop a).take (items.length - a - b), (items.drop a).drop (items.length - a - b), ?_, ?_, ?_⟩
  · rw [List.append_assoc, List.take_append_drop, List.take_append_drop]
  · rw [List.length_take]
    omega
  · rw [List.length_drop, List.length_drop]
    omega

theorem exists_deals {targets : List (String × Bool)} (one : targets.countP (·.2) ≤ 1) {items : List Ty}
    (h : ¬ Misfits targets items.length) :
    ∃ types, Ty.unpackedItems items (targets.map (·.2)) = .ok types ∧
      Deals targets items ((targets.map (·.1)).zip types) := by
  rcases targets_cases one with ⟨names, rfl⟩ | ⟨before, star, after, rfl⟩
  · have length : items.length = names.length := not_not.mp (mt misfits_plain.mpr h)
    refine ⟨items, ?_, ?_⟩
    · simp [Function.comp_def, unpackedItems_plain, length]
    · simpa [Function.comp_def] using Deals.plain length.symm
  · rw [misfits_starred, Nat.not_lt] at h
    obtain ⟨lead, middle, trail, rfl, leading, trailing⟩ := exists_parts h
    refine ⟨lead ++ .array (Ty.union middle) :: trail, ?_, ?_⟩
    · simpa [Function.comp_def, leading, trailing] using unpackedItems_starred lead middle trail
    · simpa [Function.comp_def, List.zip_append leading] using Deals.starred star middle leading trailing

theorem exists_fault {targets : List (String × Bool)} (one : targets.countP (·.2) ≤ 1) {items : List Ty}
    (h : Misfits targets items.length) :
    ∃ cause, Ty.unpackedItems items (targets.map (·.2)) = Fault.of cause := by
  rcases targets_cases one with ⟨names, rfl⟩ | ⟨before, star, after, rfl⟩
  · have hstarred : (names.map (·, false)).map (·.2) = List.replicate names.length false := by simp [Function.comp_def]
    rw [misfits_plain] at h
    rw [hstarred, unpackedItems_plain]
    rcases Nat.lt_or_gt_of_ne h with few | many
    · exact ⟨_, by rw [if_neg (Nat.not_lt.mpr few.le), if_pos few]⟩
    · exact ⟨_, if_pos many⟩
  · rw [misfits_starred] at h
    exact ⟨_, by simpa [Function.comp_def] using unpackedItems_few h⟩

end Unpacking

namespace Symbolic

open Unpacking

def Session.assigned (s : Session) (scope : Nat) (types : Bindings Ty) : Session :=
  { s with scopes := s.scopes.modify scope fun env => env.update (types.map fun b => (b.1, .type b.2)) }

theorem assigned_nil (s : Session) (scope : Nat) : s.assigned scope [] = s := by
  unfold Session.assigned
  congr 1
  apply Array.ext_getElem?
  intro i
  simp [Bindings.update, Array.getElem?_modify]

theorem assigned_cons (s : Session) (scope : Nat) (b : String × Ty) (types : Bindings Ty) :
    ({ s with scopes := s.scopes.modify scope (·.set b.1 (.type b.2)) } : Session).assigned scope types =
      s.assigned scope (b :: types) := by
  unfold Session.assigned
  dsimp only
  congr 1
  apply Array.ext_getElem?
  intro i
  simp only [Array.getElem?_modify]
  split
  · simp [Bindings.update, Function.comp_def]
  · rfl

variable (m : Machine) (scope : Nat) {ts : List Expr} {targets : List (String × Bool)}

theorem isStarred_of_target? {e : Expr} {target : String × Bool} (h : e.target? = some target) :
    e.isStarred = target.2 := by
  unfold Expr.target? at h
  split at h <;> cases h <;> rfl

theorem run_assign_spread {e : Expr} {target : String × Bool} (h : e.target? = some target) (t : Ty) (s : Session) :
    (m.assign e.spread (.type t) scope).run s =
      (.ok (), { s with scopes := s.scopes.modify scope (·.set target.1 (.type t)) }) := by
  unfold Expr.target? at h
  split at h <;> cases h <;> rfl

theorem map_isStarred (h : ts.map Expr.target? = targets.map some) : ts.map Expr.isStarred = targets.map (·.2) := by
  induction ts generalizing targets with
  | nil =>
    obtain rfl := List.map_eq_nil_iff.mp h.symm
    rfl
  | cons e ts ih =>
    obtain ⟨target, targets, rfl, he, hts⟩ := List.map_eq_cons_iff.mp h.symm
    rw [List.map_cons, List.map_cons, ih hts.symm, isStarred_of_target? he.symm]

theorem run_assignEach (h : ts.map Expr.target? = targets.map some) (types : List Ty) (s : Session) :
    (m.assignEach ts types scope).run s = (.ok (), s.assigned scope ((targets.map (·.1)).zip types)) := by
  induction ts generalizing targets types s with
  | nil =>
    obtain rfl := List.map_eq_nil_iff.mp h.symm
    exact congrArg (Prod.mk _) (assigned_nil s scope).symm
  | cons e ts ih =>
    obtain ⟨target, targets, rfl, he, hts⟩ := List.map_eq_cons_iff.mp h.symm
    cases types with
    | nil =>
      rw [List.zip_nil_right, assigned_nil]
      cases e <;> rfl
    | cons t types =>
      rw [Machine.assignEach_cons, run_bind_ok (run_assign_spread m scope he.symm t s), ih hts.symm]
      exact congrArg (Prod.mk _) (assigned_cons s scope (target.1, t) _)

section

variable {target : Expr} {p : Extent} {t : Ty} {items : List Ty}
  (sequence : target = .tuple p ts ∨ target = .list p ts) (names : ts.map Expr.target? = targets.map some)
  (unpacks : t.Unpacks items)

include sequence names unpacks

theorem assign_eq :
    m.assign target (.type t) scope = (do
      let types ← located m.module p (liftFault (Ty.unpackedItems items (targets.map (·.2))))
      m.assignEach ts types scope) := by
  have hforce : m.force (.type t) p = pure t := by
    cases unpacks <;> rfl
  have hunpack : unpack m.module p t (ts.map Expr.isStarred) =
      located m.module p (liftFault (Ty.unpackedItems items (targets.map (·.2)))) := by
    unfold unpack
    rw [sameShape_of_unpacks unpacks, map_isStarred names]
  have hassign : m.assign target (.type t) scope = (do
      let t ← m.force (.type t) p
      let types ← unpack m.module p t (ts.map Expr.isStarred)
      m.assignEach ts types scope) := by
    rcases sequence with rfl | rfl <;> rfl
  rw [hassign, hforce, pure_bind, hunpack]

theorem run_assign_ok {types : List Ty} (h : Ty.unpackedItems items (targets.map (·.2)) = .ok types) (s : Session) :
    (m.assign target (.type t) scope).run s = (.ok (), s.assigned scope ((targets.map (·.1)).zip types)) := by
  rw [assign_eq m scope sequence names unpacks, h]
  have hlocated : (located m.module p (liftFault (.ok types))).run s = (.ok types, s) := by
    rw [run_located]
    rfl
  rw [run_bind_ok hlocated, run_assignEach m scope names]

theorem run_assign_error {cause : TypeError} (h : Ty.unpackedItems items (targets.map (·.2)) = Fault.of cause)
    (s : Session) :
    (m.assign target (.type t) scope).run s = (.error (.undefined cause (some (m.module.span p))), s) := by
  rw [assign_eq m scope sequence names unpacks, h]
  apply run_bind_error
  rw [run_located]
  rfl

end

/-- A tuple is unpacked with every item assigned once, in place, or fails where the counts do not fit. -/
theorem unpacking_deals_every_item (m : Machine) (scope : Nat) (s : Session) {target : Expr} {p : Extent}
    {ts : List Expr} {targets : List (String × Bool)} {t : Ty} {items : List Ty}
    (sequence : target = .tuple p ts ∨ target = .list p ts) (names : ts.map Expr.target? = targets.map some)
    (one : targets.countP (·.2) ≤ 1) (unpacks : t.Unpacks items) :
    ((∃ cause, (m.assign target (.type t) scope).run s = (.error (.undefined cause (some (m.module.span p))), s)) ↔
      Misfits targets items.length) ∧
    (¬ Misfits targets items.length → ∃ types, Deals targets items types ∧
      (m.assign target (.type t) scope).run s = (.ok (), s.assigned scope types)) := by
  have hfits (h : ¬ Misfits targets items.length) : ∃ types, Deals targets items types ∧
      (m.assign target (.type t) scope).run s = (.ok (), s.assigned scope types) := by
    obtain ⟨types, hunpacked, hdeals⟩ := exists_deals one h
    exact ⟨_, hdeals, run_assign_ok m scope sequence names unpacks hunpacked s⟩
  refine ⟨⟨fun hfails => ?_, fun h => ?_⟩, hfits⟩
  · by_contra h
    obtain ⟨cause, hfails⟩ := hfails
    obtain ⟨types, -, hassigned⟩ := hfits h
    rw [hassigned] at hfails
    cases hfails
  · obtain ⟨cause, hcause⟩ := exists_fault one h
    exact ⟨cause, run_assign_error m scope sequence names unpacks hcause s⟩

def emptyFile : Setting where
  module := { file := "" }
  mocks := []

def emptyScope : Session where
  scopes := #[[]]

def starTargets : List Expr :=
  [.name default "a", .name default "b", .starred default (.name default "rest"), .name default "z"]

theorem starTargets_deal_every_item :
    (∃ cause, ((machine emptyFile 0).assign (.tuple default starTargets) (.type (.tuple [.number, .string])) 0).run
      emptyScope = (.error (.undefined cause (some (emptyFile.module.span default))), emptyScope)) ∧
    ∃ types, Deals [("a", false), ("b", false), ("rest", true), ("z", false)]
        [.union [.number, .string], .union [.string, .string], .union [.null, .number]] types ∧
      ((machine emptyFile 0).assign (.list default starTargets)
        (.type (.oneOf [.tuple [.number, .string, .null], .tuple [.string, .string, .number]])) 0).run emptyScope =
          (.ok (), emptyScope.assigned 0 types) ∧
      (emptyScope.assigned 0 types).scopes =
        #[[("a", .type (.union [.number, .string])), ("b", .type .string), ("rest", .type (.array .never)),
          ("z", .type (.union [.null, .number]))]] := by
  have names : starTargets.map Expr.target? =
      [("a", false), ("b", false), ("rest", true), ("z", false)].map some := rfl
  have short := unpacking_deals_every_item (p := default) (machine emptyFile 0) 0 emptyScope (.inl rfl) names
    (by decide) (.tuple [.number, .string])
  have unpacks : (Ty.oneOf [.tuple [.number, .string, .null], .tuple [.string, .string, .number]]).Unpacks
      [.union [.number, .string], .union [.string, .string], .union [.null, .number]] := by
    refine @Ty.Unpacks.alike [[.number, .string, .null], [.string, .string, .number]] _ (by simp) (by simp) ?_
    intro i t ht
    rcases i with _ | _ | _ | i <;> cases ht <;> rfl
  have alike := unpacking_deals_every_item (p := default) (machine emptyFile 0) 0 emptyScope (.inr rfl) names
    (by decide) unpacks
  obtain ⟨types, hdeals, hrun⟩ := alike.2 (by simp [Misfits])
  have hscopes : (((machine emptyFile 0).assign (.list default starTargets)
      (.type (.oneOf [.tuple [.number, .string, .null], .tuple [.string, .string, .number]])) 0).run emptyScope).2.scopes =
      #[[("a", .type (.union [.number, .string])), ("b", .type .string), ("rest", .type (.array .never)),
        ("z", .type (.union [.null, .number]))]] := rfl
  rw [hrun] at hscopes
  exact ⟨short.1.mpr (by simp [Misfits]), types, hdeals, hrun, hscopes⟩

end Symbolic

end Casewise
