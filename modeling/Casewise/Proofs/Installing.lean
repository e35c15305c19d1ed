import Casewise.Concrete.Install
import Casewise.Proofs.Bindings
import Casewise.Proofs.DottedNames
import Casewise.Proofs.Failing

namespace Casewise.Concrete

def Store.Grows (old new : Store) : Prop :=
  ∀ id o, old.get? id = some o → ∃ o', new.get? id = some o' ∧ o'.kind = o.kind

namespace Store

theorem Grows.refl (s : Store) : Grows s s := fun _ o h => ⟨o, h, rfl⟩

theorem Grows.trans {a b c : Store} (hab : Grows a b) (hbc : Grows b c) : Grows a c := by
  intro id o ho
  obtain ⟨o', ho', hk⟩ := hab id o ho
  obtain ⟨o'', ho'', hk'⟩ := hbc id o' ho'
  exact ⟨o'', ho'', hk'.trans hk⟩

theorem get?_add_self (s : Store) (o : Object) : (s.add o).1.get? s.objects.length = some o := by
  simp [add, get?]

theorem get?_add_of_some {s : Store} {id : Nat} {o : Object} (h : s.get? id = some o) (new : Object) :
    (s.add new).1.get? id = some o := by
  obtain ⟨hlt, -⟩ := List.getElem?_eq_some_iff.mp h
  simpa only [add, get?, List.getElem?_append_left hlt] using h

theorem get?_setMember (s : Store) (id other : Nat) (name : String) (v : Value) :
    (s.setMember id name v).get? other =
      (s.get? other).map fun o => if id = other then { o with members := o.members.set name v } else o := by
  simp only [setMember, get?, List.getElem?_modify]
  rfl

theorem grows_add (s : Store) (o : Object) : Grows s (s.add o).1 := fun _ o' h => ⟨o', get?_add_of_some h o, rfl⟩

theorem grows_setMember (s : Store) (id : Nat) (name : String) (v : Value) : Grows s (s.setMember id name v) := by
  intro other o h
  refine ⟨_, by rw [get?_setMember, h]; rfl, ?_⟩
  by_cases hid : id = other <;> simp [hid]

def Hollow (s : Store) (id : Nat) : Prop :=
  ∃ o, s.get? id = some o ∧ o.kind = .space ∧ ∀ b ∈ o.members, b.2 = .object id

theorem Hollow.member? {s : Store} {id : Nat} (h : Hollow s id) {name : String} {v : Value}
    (hv : (Value.object id).member? s name = some v) : v = .object id := by
  obtain ⟨o, ho, hk, hm⟩ := h
  have hnone : (if name = "__name__" then (Value.ownName? o.kind).map Value.text else none) = none := by
    rw [hk]
    split <;> rfl
  simp only [Value.member?, ho, Option.bind_eq_bind, Option.bind_some, hnone, Option.or_none] at hv
  exact hm _ (Bindings.mem_of_get? hv)

theorem hollow_new (s : Store) : Hollow (s.add ⟨.space, []⟩).1 s.objects.length :=
  ⟨_, get?_add_self s _, rfl, by simp⟩

theorem hollow_made (s : Store) (owner : Nat) (name : String) :
    Hollow ((s.add ⟨.space, []⟩).1.setMember owner name (.object s.objects.length)) s.objects.length := by
  refine ⟨_, by rw [get?_setMember, get?_add_self]; rfl, ?_, ?_⟩
  · by_cases h : owner = s.objects.length <;> simp [h]
  · by_cases h : owner = s.objects.length <;> simp [h, Bindings.set]

end Store

structure Extends (s s' : Process) : Prop where
  globals : s'.globals = s.globals
  kinds : s.store.Grows s'.store

theorem Extends.refl (s : Process) : Extends s s := ⟨rfl, .refl _⟩

theorem Extends.trans {a b c : Process} (hab : Extends a b) (hbc : Extends b c) : Extends a c :=
  ⟨hbc.globals.trans hab.globals, hab.kinds.trans hbc.kinds⟩

theorem something?_eq_some {v : Option Value} {w : Value} : something? v = some w ↔ v = some w ∧ w ≠ .null := by
  cases v with
  | none => simp [something?]
  | some u =>
    cases u with
    | null =>
      simp only [something?, Option.some.injEq]
      exact iff_of_false nofun fun h => h.2 h.1.symm
    | _ =>
      simp only [something?, Option.some.injEq]
      exact ⟨fun h => ⟨h, h ▸ nofun⟩, And.left⟩

def Value.isObject : Value → Bool
  | .object _ => true
  | _ => false

theorem Value.isObject_iff {v : Value} : v.isObject = true ↔ ∃ id, v = .object id := by
  cases v <;> simp [isObject]

def Process.withObject (s : Process) (kind : ObjectKind) : Process := { s with store := (s.store.add ⟨kind, []⟩).1 }

def Process.fresh (s : Process) : Nat := s.store.objects.length

def Process.withMember (s : Process) (id : Nat) (name : String) (v : Value) : Process :=
  { s with store := s.store.setMember id name v }

theorem extends_withObject (s : Process) (kind : ObjectKind) : Extends s (s.withObject kind) :=
  ⟨rfl, Store.grows_add _ _⟩

theorem extends_withMember (s : Process) (id : Nat) (name : String) (v : Value) : Extends s (s.withMember id name v) :=
  ⟨rfl, Store.grows_setMember _ _ _ _⟩

def Process.withSpace (s : Process) (id : Nat) (name : String) : Process :=
  (s.withObject .space).withMember id name (.object s.fresh)

theorem extends_withSpace (s : Process) (id : Nat) (name : String) : Extends s (s.withSpace id name) :=
  (extends_withObject s .space).trans (extends_withMember ..)

theorem hollow_withSpace (s : Process) (id : Nat) (name : String) : (s.withSpace id name).store.Hollow s.fresh :=
  Store.hollow_made s.store id name

theorem run_store (s : Process) : Run.store.run s = (.ok s.store, s) := rfl

theorem run_allocate (s : Process) (kind : ObjectKind) :
    (Run.allocate kind).run s = (.ok (.object s.fresh), s.withObject kind) := rfl

theorem run_setMember_object (s : Process) (id : Nat) (name : String) (v : Value) :
    (setMember (.object id) name v).run s = (.ok (), s.withMember id name v) := rfl

theorem run_setMember_plain {owner : Value} (h : owner.isObject = false) (s : Process) (name : String) (v : Value) :
    ∃ e, (setMember owner name v).run s = (.error e, s) := by
  cases owner with
  | object id => simp [Value.isObject] at h
  | builtin kind of => cases kind <;> exact ⟨_, rfl⟩
  | _ => exact ⟨_, rfl⟩

section

variable {s : Process} {v owner : Value} {name next : String} {rest : List String}

theorem run_installAt_some {w : Value} (h : something? (owner.member? s.store name) = some w) :
    (installAt v owner (name :: next :: rest)).run s = (installAt v w (next :: rest)).run s := by
  rw [installAt, run_bind_ok (run_store s), h]
  exact List.cons_ne_nil _ _

theorem run_installAt_none (h : something? (owner.member? s.store name) = none) :
    (installAt v owner (name :: next :: rest)).run s =
      (setMember owner name (.object s.fresh) >>= fun _ => installAt v (.object s.fresh) (next :: rest)).run
        (s.withObject .space) := by
  rw [installAt, run_bind_ok (run_store s), h]
  · exact run_bind_ok (run_allocate s .space)
  · exact List.cons_ne_nil _ _

theorem run_installAt_missing {id : Nat} (h : something? ((Value.object id).member? s.store name) = none) :
    (installAt v (.object id) (name :: next :: rest)).run s =
      (installAt v (.object s.fresh) (next :: rest)).run (s.withSpace id name) := by
  rw [run_installAt_none h, run_bind_ok (run_setMember_object _ id name _)]
  rfl

theorem run_installAt_hollow (v : Value) {id : Nat} (path : List String) (h : s.store.Hollow id) :
    ∃ s', (installAt v (.object id) path).run s = (.ok (), s') ∧ Extends s s' := by
  induction path generalizing id s with
  | nil => exact ⟨s, rfl, .refl s⟩
  | cons name rest ih =>
    cases rest with
    | nil => exact ⟨_, run_setMember_object s id name v, extends_withMember ..⟩
    | cons next rest =>
      cases hm : something? ((Value.object id).member? s.store name) with
      | some w =>
        rw [run_installAt_some hm, h.member? (something?_eq_some.mp hm).1]
        exact ih h
      | none =>
        obtain ⟨s', hrun, hext⟩ := ih (hollow_withSpace s id name)
        exact ⟨s', by rw [run_installAt_missing hm, hrun], (extends_withSpace ..).trans hext⟩

def Store.reached (s : Store) (owner : Value) : List String → Value
  | name :: next :: rest =>
    match something? (owner.member? s name) with
    | some v => reached s v (next :: rest)
    | none => owner
  | _ => owner

theorem Store.reached_some {w : Value} (h : something? (owner.member? s.store name) = some w) :
    s.store.reached owner (name :: next :: rest) = s.store.reached w (next :: rest) := by
  rw [reached, h]

theorem Store.reached_none (h : something? (owner.member? s.store name) = none) :
    s.store.reached owner (name :: next :: rest) = owner := by
  rw [reached, h]

end

theorem run_installAt (s : Process) (v owner : Value) (name : String) (path : List String) :
    ∃ r s', (installAt v owner (name :: path)).run s = (r, s') ∧ Extends s s' ∧
      (r = .ok () ↔ (s.store.reached owner (name :: path)).isObject = true) := by
  induction path generalizing owner name with
  | nil =>
    cases ho : owner.isObject with
    | false =>
      obtain ⟨e, he⟩ := run_setMember_plain ho s name v
      exact ⟨_, s, he, .refl s, iff_of_false nofun (by simp [Store.reached, ho])⟩
    | true =>
      obtain ⟨id, rfl⟩ := Value.isObject_iff.mp ho
      exact ⟨_, _, run_setMember_object s id name v, extends_withMember .., iff_of_true rfl rfl⟩
  | cons next rest ih =>
    cases hm : something? (owner.member? s.store name) with
    | some w =>
      rw [run_installAt_some hm, Store.reached_some hm]
      exact ih w next
    | none =>
      rw [Store.reached_none hm]
      cases ho : owner.isObject with
      | false =>
        obtain ⟨e, he⟩ := run_setMember_plain ho (s.withObject .space) name (.object s.fresh)
        rw [run_installAt_none hm]
        exact ⟨_, _, run_bind_error he, extends_withObject .., iff_of_false nofun nofun⟩
      | true =>
        obtain ⟨id, rfl⟩ := Value.isObject_iff.mp ho
        obtain ⟨s', hrun, hext⟩ := run_installAt_hollow v (next :: rest) (hollow_withSpace s id name)
        rw [run_installAt_missing hm]
        exact ⟨_, s', hrun, (extends_withSpace ..).trans hext, iff_of_true rfl rfl⟩

def made (m : Mock.Payload) (called : Bool) (s : Process) : Value × Process :=
  if m.callable || called then (.object s.fresh, s.withObject (.mock m.value)) else (.ofDatum m.value, s)

theorem run_substitute (m : Mock.Payload) (called : Bool) (s : Process) :
    (substitute m called).run s = (.ok (made m called s).1, (made m called s).2) := by
  unfold substitute made
  split
  · exact run_allocate s _
  · rfl

theorem extends_made (m : Mock.Payload) (called : Bool) (s : Process) : Extends s (made m called s).2 := by
  unfold made
  split
  · exact extends_withObject ..
  · exact .refl s

inductive StandsFor (s : Store) (m : Mock.Payload) (called : Bool) : Value → Prop
  | function {id : Nat} {o : Object} (needed : (m.callable || called) = true) (there : s.get? id = some o)
      (returns : o.kind = .mock m.value) : StandsFor s m called (.object id)
  | value (plain : (m.callable || called) = false) : StandsFor s m called (.ofDatum m.value)

theorem StandsFor.mono {s s' : Store} {m : Mock.Payload} {called : Bool} {w : Value} (h : StandsFor s m called w)
    (hs : s.Grows s') : StandsFor s' m called w := by
  cases h with
  | function needed there returns =>
    obtain ⟨o', ho', hk⟩ := hs _ _ there
    exact .function needed ho' (hk.trans returns)
  | value plain => exact .value plain

def GivesNothing (m : Mock.Payload) (called : Bool) : Prop := (m.callable || called) = false ∧ m.value = .null

theorem StandsFor.eq_null_iff {s : Store} {m : Mock.Payload} {called : Bool} {w : Value} (h : StandsFor s m called w) :
    w = .null ↔ GivesNothing m called := by
  cases h with
  | function needed => exact iff_of_false nofun fun h => Bool.false_ne_true (h.1.symm.trans needed)
  | value plain =>
    rw [GivesNothing]
    cases hv : m.value <;> simp [Value.ofDatum, plain]

theorem standsFor_made (m : Mock.Payload) (called : Bool) (s : Process) :
    StandsFor (made m called s).2.store m called (made m called s).1 := by
  cases h : m.callable || called with
  | true =>
    simp only [made, h, if_true]
    exact .function h (Store.get?_add_self _ _) rfl
  | false =>
    simp only [made, h, Bool.false_eq_true, if_false]
    exact .value h

def IsSpace (s : Store) (w : Value) : Prop := ∃ id o, w = .object id ∧ s.get? id = some o ∧ o.kind = .space

theorem IsSpace.mono {s s' : Store} {w : Value} (h : IsSpace s w) (hs : s.Grows s') : IsSpace s' w := by
  obtain ⟨id, o, rfl, ho, hk⟩ := h
  obtain ⟨o', ho', hk'⟩ := hs id o ho
  exact ⟨id, o', rfl, ho', hk'.trans hk⟩

def installOne (called : List String) (target : String) (m : Mock.Payload) : Run Unit := do
  install .globals target (← substitute m (called.contains target))

def Blocked (s : Process) (target : String) (m : Mock.Payload) (called : Bool) : Prop :=
  ∃ root part path owner, Dotted.parts target = root :: part :: path ∧ something? (s.globals.get? root) = some owner ∧
    ((made m called s).2.store.reached owner (part :: path)).isObject = false

inductive Effect (s : Process) (target : String) (m : Mock.Payload) (called : Bool) : Except Stop Unit → Process → Prop
  | bound {s' : Process} {w : Value} (word : Dotted.IsWord target) (stands : StandsFor s'.store m called w)
      (globals : s'.globals = s.globals.set target w) : Effect s target m called (.ok ()) s'
  | member {s' : Process} {root part : String} {path : List String} {owner : Value}
      (parts : Dotted.parts target = root :: part :: path) (there : something? (s.globals.get? root) = some owner)
      (globals : s'.globals = s.globals) : Effect s target m called (.ok ()) s'
  | space {s' : Process} {root part : String} {path : List String} {w : Value}
      (parts : Dotted.parts target = root :: part :: path) (missing : something? (s.globals.get? root) = none)
      (space : IsSpace s'.store w) (globals : s'.globals = s.globals.set root w) : Effect s target m called (.ok ()) s'
  | blocked {e : Stop} {s' : Process} (blocked : Blocked s target m called) : Effect s target m called (.error e) s'

theorem run_install_word {name : String} (hw : Dotted.IsWord name) (s : Process) (v : Value) :
    (install .globals name v).run s = (.ok (), { s with globals := s.globals.set name v }) := by
  rw [install, Dotted.parts_of_isWord hw]
  rfl

theorem run_get? (s : Process) (name : String) :
    (Place.get? .globals name).run s = (.ok (s.globals.get? name), s) := rfl

section

variable {s : Process} {name root part : String} {path : List String}

theorem run_install_some {owner : Value} (hp : Dotted.parts name = root :: part :: path)
    (h : something? (s.globals.get? root) = some owner) (v : Value) :
    (install .globals name v).run s = (installAt v owner (part :: path)).run s := by
  simp only [install, hp]
  rw [run_bind_ok (run_get? s root), h]

theorem run_install_none (hp : Dotted.parts name = root :: part :: path)
    (h : something? (s.globals.get? root) = none) (v : Value) :
    (install .globals name v).run s = (installAt v (.object s.fresh) (part :: path)).run
      { s.withObject .space with globals := s.globals.set root (.object s.fresh) } := by
  simp only [install, hp]
  rw [run_bind_ok (run_get? s root), h]
  rfl

end

theorem run_installOne (called : List String) (target : String) (m : Mock.Payload) (s : Process) :
    ∃ r s', (installOne called target m).run s = (r, s') ∧ s.store.Grows s'.store ∧
      Effect s target m (called.contains target) r s' := by
  have hmade := extends_made m (called.contains target) s
  have hstands := standsFor_made m (called.contains target) s
  have hsub := run_substitute m (called.contains target) s
  rw [installOne, run_bind_ok hsub]
  generalize hv : (made m (called.contains target) s).1 = v at hstands ⊢
  generalize hs₁ : (made m (called.contains target) s).2 = s₁ at hmade hstands ⊢
  by_cases hw : Dotted.IsWord target
  · exact ⟨_, _, run_install_word hw s₁ v, hmade.kinds, .bound hw hstands (by rw [hmade.globals])⟩
  · obtain ⟨root, part, path, hp⟩ := Dotted.exists_parts_of_dotted hw
    cases ho : something? (s.globals.get? root) with
    | some owner =>
      obtain ⟨r, s', hrun, hext, hok⟩ := run_installAt s₁ v owner part path
      refine ⟨r, s', by rw [run_install_some hp (hmade.globals ▸ ho), hrun], hmade.kinds.trans hext.kinds, ?_⟩
      cases r with
      | ok => exact .member hp ho (hext.globals.trans hmade.globals)
      | error e =>
        refine .blocked ⟨root, part, path, owner, hp, ho, ?_⟩
        rw [hs₁]
        exact Bool.eq_false_iff.mpr (mt hok.mpr nofun)
    | none =>
      let s₂ : Process := { s₁.withObject .space with globals := s₁.globals.set root (.object s₁.fresh) }
      have hgrows : s.store.Grows s₂.store := hmade.kinds.trans (extends_withObject s₁ .space).kinds
      have hspace : IsSpace s₂.store (.object s₁.fresh) := ⟨_, _, rfl, Store.get?_add_self _ _, rfl⟩
      have hhollow : s₂.store.Hollow s₁.fresh := Store.hollow_new s₁.store
      obtain ⟨s', hrun, hext⟩ := run_installAt_hollow v (part :: path) hhollow
      refine ⟨.ok (), s', by rw [run_install_none hp (hmade.globals ▸ ho)]; exact hrun, hgrows.trans hext.kinds, ?_⟩
      exact .space hp ho (hspace.mono hext.kinds) (by rw [hext.globals, ← hmade.globals])

section

variable {s s' : Process} {name target : String} {m : Mock.Payload} {called : Bool}

theorem Effect.binds (h : Effect s name m called (.ok ()) s') (hw : Dotted.IsWord name) :
    ∃ w, s'.globals.get? name = some w ∧ StandsFor s'.store m called w := by
  cases h with
  | bound _ stands globals => exact ⟨_, by rw [globals, Bindings.get?_set_self], stands⟩
  | member parts => simp [Dotted.parts_of_isWord hw] at parts
  | space parts => simp [Dotted.parts_of_isWord hw] at parts

theorem Effect.keeps (h : Effect s target m called (.ok ()) s') (hw : Dotted.IsWord name) (hne : target ≠ name)
    (hs : Dotted.isUnder name target = true → something? (s.globals.get? name) ≠ none) :
    s'.globals.get? name = s.globals.get? name := by
  cases h with
  | bound _ _ globals => rw [globals, Bindings.get?_set_of_ne hne]
  | member _ _ globals => rw [globals]
  | @space _ root part path w parts missing _ globals =>
    have hroot : root ≠ name := by
      rintro rfl
      exact hs ((Dotted.isUnder_word_iff hw).mpr ⟨part, path, parts⟩) missing
    rw [globals, Bindings.get?_set_of_ne hroot]

theorem Effect.makes (h : Effect s target m called (.ok ()) s') (hw : Dotted.IsWord name)
    (hu : Dotted.isUnder name target = true) (hs : something? (s.globals.get? name) = none) :
    ∃ w, s'.globals.get? name = some w ∧ IsSpace s'.store w := by
  obtain ⟨part, path, hp⟩ := (Dotted.isUnder_word_iff hw).mp hu
  cases h with
  | bound word => simp [Dotted.parts_of_isWord word] at hp
  | member parts there =>
    obtain rfl : _ = name := (List.cons.inj (parts.symm.trans hp)).1
    simp [hs] at there
  | space parts _ space globals =>
    obtain rfl : _ = name := (List.cons.inj (parts.symm.trans hp)).1
    exact ⟨_, by rw [globals, Bindings.get?_set_self], space⟩

end

def installAll (called : List String) : List (String × Mock.Payload) → Run Unit
  | [] => return ()
  | x :: xs => do
    installOne called x.1 x.2
    installAll called xs

variable {called : List String} {xs : List (String × Mock.Payload)} {s s' : Process} {name : String}

theorem run_installAll_cons {x : String × Mock.Payload} {s₁ : Process}
    (h : (installOne called x.1 x.2).run s = (.ok (), s₁)) (xs : List (String × Mock.Payload)) :
    (installAll called (x :: xs)).run s = (installAll called xs).run s₁ := run_bind_ok h

theorem installAll_nil_ok (h : (installAll called []).run s = (.ok (), s')) : s' = s := (congrArg Prod.snd h).symm

theorem installAll_cons_ok {x : String × Mock.Payload} (h : (installAll called (x :: xs)).run s = (.ok (), s')) :
    ∃ s₁, s.store.Grows s₁.store ∧ Effect s x.1 x.2 (called.contains x.1) (.ok ()) s₁ ∧
      (installAll called xs).run s₁ = (.ok (), s') := by
  obtain ⟨_, s₁, hone, hrest⟩ := run_bind_eq_ok h
  obtain ⟨r, s₂, hrun, hgrows, heffect⟩ := run_installOne called x.1 x.2 s
  obtain ⟨rfl, rfl⟩ := Prod.mk.inj (hrun.symm.trans hone)
  exact ⟨s₂, hgrows, heffect, hrest⟩

theorem installAll_append (called : List String) (xs ys : List (String × Mock.Payload)) :
    installAll called (xs ++ ys) = (do installAll called xs; installAll called ys) := by
  induction xs with
  | nil => simp [installAll]
  | cons x xs ih => simp [installAll, ih]

theorem blocked_of_error {e : Stop} (h : (installAll called xs).run s = (.error e, s')) :
    ∃ before x after s₁, xs = before ++ x :: after ∧ (installAll called before).run s = (.ok (), s₁) ∧
      Blocked s₁ x.1 x.2 (called.contains x.1) := by
  induction xs generalizing s with
  | nil => exact absurd (congrArg Prod.fst h) nofun
  | cons x xs ih =>
    obtain ⟨r, s₁, hrun, -, heffect⟩ := run_installOne called x.1 x.2 s
    cases r with
    | ok =>
      rw [run_installAll_cons hrun] at h
      obtain ⟨before, y, after, s₂, rfl, hbefore, hblocked⟩ := ih h
      exact ⟨x :: before, y, after, s₂, rfl, by rw [run_installAll_cons hrun, hbefore], hblocked⟩
    | error e =>
      cases heffect with
      | blocked hblocked => exact ⟨[], x, xs, s, rfl, rfl, hblocked⟩

theorem installAll_grows (h : (installAll called xs).run s = (.ok (), s')) : s.store.Grows s'.store := by
  induction xs generalizing s with
  | nil => exact installAll_nil_ok h ▸ .refl _
  | cons x xs ih =>
    obtain ⟨s₁, hgrows, -, hrest⟩ := installAll_cons_ok h
    exact hgrows.trans (ih hrest)

theorem installAll_keeps (h : (installAll called xs).run s = (.ok (), s')) (hw : Dotted.IsWord name)
    (hne : ∀ x ∈ xs, x.1 ≠ name)
    (hs : (∃ x ∈ xs, Dotted.isUnder name x.1 = true) → something? (s.globals.get? name) ≠ none) :
    s'.globals.get? name = s.globals.get? name := by
  induction xs generalizing s with
  | nil => rw [installAll_nil_ok h]
  | cons x xs ih =>
    obtain ⟨s₁, -, heffect, hrest⟩ := installAll_cons_ok h
    obtain ⟨hx, hxs⟩ := List.forall_mem_cons.mp hne
    have hkeep := heffect.keeps hw hx fun hu => hs ⟨x, by simp, hu⟩
    rw [ih hrest hxs, hkeep]
    rw [hkeep]
    exact fun ⟨y, hy, hu⟩ => hs ⟨y, List.mem_cons_of_mem _ hy, hu⟩

theorem installAll_makes (h : (installAll called xs).run s = (.ok (), s')) (hw : Dotted.IsWord name)
    (hne : ∀ x ∈ xs, x.1 ≠ name) (hu : ∃ x ∈ xs, Dotted.isUnder name x.1 = true)
    (hs : something? (s.globals.get? name) = none) : ∃ w, s'.globals.get? name = some w ∧ IsSpace s'.store w := by
  induction xs generalizing s with
  | nil => simp at hu
  | cons x xs ih =>
    obtain ⟨s₁, -, heffect, hrest⟩ := installAll_cons_ok h
    obtain ⟨hx, hxs⟩ := List.forall_mem_cons.mp hne
    by_cases hux : Dotted.isUnder name x.1 = true
    · obtain ⟨w, hget, hspace⟩ := heffect.makes hw hux hs
      have hthere : something? (s₁.globals.get? name) ≠ none := by
        obtain ⟨id, o, rfl, -⟩ := hspace
        simp [hget, something?]
      exact ⟨w, by rw [installAll_keeps hrest hw hxs fun _ => hthere, hget], hspace.mono (installAll_grows hrest)⟩
    · have hkeep := heffect.keeps hw hx fun h => absurd h hux
      obtain ⟨y, hy, huy⟩ := hu
      rcases List.mem_cons.mp hy with rfl | hy
      · exact absurd huy hux
      · exact ih hrest hxs ⟨y, hy, huy⟩ (hkeep ▸ hs)

theorem installAll_binds {m : Mock.Payload} {before after : List (String × Mock.Payload)}
    (h : (installAll called (before ++ (name, m) :: after)).run s = (.ok (), s')) (hw : Dotted.IsWord name)
    (hne : ∀ x ∈ after, x.1 ≠ name) : ∃ w, s'.globals.get? name = some w ∧
      (StandsFor s'.store m (called.contains name) w ∨
        (GivesNothing m (called.contains name) ∧ (∃ x ∈ after, Dotted.isUnder name x.1 = true) ∧
          IsSpace s'.store w)) := by
  rw [installAll_append] at h
  obtain ⟨_, s₁, -, hrest⟩ := run_bind_eq_ok h
  obtain ⟨s₂, -, heffect, hafter⟩ := installAll_cons_ok hrest
  obtain ⟨w, hget, hstands⟩ := heffect.binds hw
  by_cases hlost : w = .null ∧ ∃ x ∈ after, Dotted.isUnder name x.1 = true
  · have hnothing : something? (s₂.globals.get? name) = none := by
      rw [hget, hlost.1]
      rfl
    obtain ⟨w', hget', hspace⟩ := installAll_makes hafter hw hne hlost.2 hnothing
    exact ⟨w', hget', .inr ⟨hstands.eq_null_iff.mp hlost.1, hlost.2, hspace⟩⟩
  · have hthere : (∃ x ∈ after, Dotted.isUnder name x.1 = true) → something? (s₂.globals.get? name) ≠ none := by
      intro hunder hnone
      have hw : something? (some w) = some w := something?_eq_some.mpr ⟨rfl, fun hnull => hlost ⟨hnull, hunder⟩⟩
      rw [hget, hw] at hnone
      simp at hnone
    exact ⟨w, by rw [installAll_keeps hafter hw hne hthere, hget], .inl (hstands.mono (installAll_grows hafter))⟩

end Casewise.Concrete
