import Casewise.Mock
import Casewise.Proofs.Bindings
import Casewise.Proofs.DottedNames

namespace Casewise

namespace Mock

inductive FieldAt : CaseValue → List String → CaseValue → Prop
  | here (v : CaseValue) : FieldAt v [] v
  | record {fs : List (String × Datum)} {name : String} {d : Datum} {path : List String} {v : CaseValue}
      (field : Bindings.get? name fs = some d) (rest : FieldAt (.concrete d) path v) :
      FieldAt (.concrete (.record fs)) (name :: path) v
  | object {fs : List (String × Ty)} {name : String} {t : Ty} {path : List String} {v : CaseValue}
      (field : Bindings.get? name fs = some t) (rest : FieldAt (.symbolic t) path v) :
      FieldAt (.symbolic (.object fs)) (name :: path) v

theorem fieldAt_cons {v w : CaseValue} {name : String} {path : List String} :
    FieldAt v (name :: path) w ↔ ∃ u, field? name v = some u ∧ FieldAt u path w := by
  constructor
  · intro h
    cases h with
    | record field rest => exact ⟨_, by rw [field?, field]; rfl, rest⟩
    | object field rest => exact ⟨_, by rw [field?, field]; rfl, rest⟩
  · rintro ⟨u, hu, h⟩
    unfold field? at hu
    split at hu
    · obtain ⟨d, hd, rfl⟩ := Option.map_eq_some_iff.mp hu
      exact .record hd h
    · obtain ⟨t, ht, rfl⟩ := Option.map_eq_some_iff.mp hu
      exact .object ht h
    · simp at hu

theorem path?_eq_some {v w : CaseValue} {path : List String} : path? v path = some w ↔ FieldAt v path w := by
  induction path generalizing v with
  | nil =>
    constructor
    · intro h
      rw [← Option.some.inj h]
      exact .here v
    · intro h
      cases h
      rfl
  | cons name path ih =>
    rw [fieldAt_cons, path?, List.foldlM_cons]
    simp only [Option.bind_eq_bind, Option.bind_eq_some_iff]
    exact exists_congr fun u => and_congr_right fun _ => ih

end Mock

namespace MockChain

theorem nodup_names_entries (chain : MockChain) : chain.entries.names.Nodup := by
  induction chain with
  | nil => simp [entries, Bindings.names]
  | cons table outer ih => exact Bindings.nodup_names_update table ih

theorem get?_entries {chain : MockChain} (h : ∀ table ∈ chain, table.names.Nodup) (name : String) :
    chain.entries.get? name = chain.lookup? name := by
  induction chain with
  | nil => rfl
  | cons table outer ih =>
    obtain ⟨ht, houter⟩ := List.forall_mem_cons.mp h
    rw [entries, Bindings.get?_update ht, ih houter, lookup?]

theorem symbols_mocks (chain : MockChain) : chain.mocks.map Mock.symbol = chain.entries.names := by
  simp [mocks, Bindings.names, Function.comp_def]

theorem find?_mocks (chain : MockChain) (name : String) :
    chain.mocks.find? (·.symbol == name) = (chain.entries.get? name).map (Mock.mk name) := by
  unfold mocks
  induction chain.entries with
  | nil => rfl
  | cons e es ih =>
    by_cases he : e.1 = name
    · simp [Bindings.get?, he]
    · have hne : (e.1 == name) = false := by simpa using he
      rw [List.map_cons, List.find?_cons, hne, ih]
      simp [Bindings.get?, he]

theorem resolve?_of_isWord {chain : MockChain} {name : String} (h : Dotted.IsWord name) :
    chain.resolve? name = chain.lookup? name := by
  simp [resolve?, underRoot?, Dotted.parts_of_isWord h]

theorem resolve?_of_parts {chain : MockChain} {name root part : String} {path : List String}
    (h : Dotted.parts name = root :: part :: path) (v : CaseValue) :
    chain.resolve? name = some v ↔ chain.lookup? name = some v ∨
      (chain.lookup? name = none ∧ ∃ base, chain.lookup? root = some base ∧ Mock.FieldAt base (part :: path) v) := by
  simp only [resolve?, underRoot?, h, Option.or_eq_some_iff, Option.bind_eq_some_iff, Mock.path?_eq_some]

end MockChain

namespace MockRegistry

inductive Change where
  | child (parent : Nat)
  | register (scope : Nat) (mock : Mock)

namespace Change

def scope : Change → Nat
  | .child parent => parent
  | .register scope _ => scope

def apply (r : MockRegistry) : Change → MockRegistry
  | .child parent => (r.child parent).1
  | .register scope m => r.register scope m

def registered? (scope : Nat) (name : String) : Change → Option CaseValue
  | .child _ => none
  | .register s m => if s = scope ∧ m.symbol = name then some m.substitute else none

def extend (chains : List (List Nat)) : Change → List (List Nat)
  | .child parent => chains ++ [chains.length :: (chains[parent]?).getD []]
  | .register .. => chains

end Change

def after (changes : List Change) : MockRegistry := changes.foldl Change.apply empty

def chains (changes : List Change) : List (List Nat) := changes.foldl Change.extend [[file]]

def chainOf (changes : List Change) (scope : Nat) : List Nat := ((chains changes)[scope]?).getD []

def latest? (changes : List Change) (scope : Nat) (name : String) : Option CaseValue :=
  changes.reverse.findSome? (·.registered? scope name)

/-- The latest registration of a name in the innermost scope that has one, from a scope outwards. -/
def visible? (changes : List Change) (scope : Nat) (name : String) : Option CaseValue :=
  (chainOf changes scope).findSome? (latest? changes · name)

inductive Legal : List Change → Prop
  | none : Legal []
  | next {changes : List Change} {c : Change} (before : Legal changes) (there : c.scope < (chains changes).length) :
      Legal (changes ++ [c])

theorem after_append (changes : List Change) (c : Change) : after (changes ++ [c]) = c.apply (after changes) := by
  simp [after]

theorem chains_append (changes : List Change) (c : Change) : chains (changes ++ [c]) = c.extend (chains changes) := by
  simp [chains]

theorem latest?_append (changes : List Change) (c : Change) (scope : Nat) (name : String) :
    latest? (changes ++ [c]) scope name = (c.registered? scope name).or (latest? changes scope name) := by
  rw [latest?, List.reverse_concat, List.findSome?_cons]
  cases c.registered? scope name <;> rfl

def table (r : MockRegistry) (scope : Nat) : Bindings CaseValue := ((r.scopes[scope]?).map MockScope.entries).getD []

theorem table_child (r : MockRegistry) (parent scope : Nat) : (r.child parent).1.table scope = r.table scope := by
  rcases Nat.lt_trichotomy scope r.scopes.length with h | h | h
  · simp only [table, child, List.getElem?_append_left h]
  · simp [table, child, h]
  · have hlen : (r.child parent).1.scopes.length ≤ scope := by
      rw [child, List.length_append, List.length_singleton]
      omega
    rw [table, table, List.getElem?_eq_none hlen, List.getElem?_eq_none h.le]

theorem table_register_self {r : MockRegistry} {scope : Nat} (m : Mock) (h : scope < r.scopes.length) :
    (r.register scope m).table scope = (r.table scope).set m.symbol m.substitute := by
  simp [table, register, h]

theorem table_register_of_ne (r : MockRegistry) {scope other : Nat} (m : Mock) (h : other ≠ scope) :
    (r.register scope m).table other = r.table other := by
  simp [table, register, Ne.symm h]

def Linked (chains : List (List Nat)) (scope : Nat) : Option Nat → Prop
  | none => chains[scope]? = some [scope]
  | some p => p < scope ∧ ∃ outer, chains[p]? = some outer ∧ chains[scope]? = some (scope :: outer)

theorem Linked.append {chains : List (List Nat)} {scope : Nat} {parent : Option Nat} (h : Linked chains scope parent)
    (more : List (List Nat)) : Linked (chains ++ more) scope parent := by
  have keep {i : Nat} {chain : List Nat} (hi : chains[i]? = some chain) : (chains ++ more)[i]? = some chain := by
    rw [List.getElem?_append_left (List.getElem?_eq_some_iff.mp hi).1, hi]
  cases parent with
  | none => exact keep h
  | some p =>
    obtain ⟨hlt, outer, ho, hs⟩ := h
    exact ⟨hlt, outer, keep ho, keep hs⟩

structure Follows (r : MockRegistry) (changes : List Change) : Prop where
  count : r.scopes.length = (chains changes).length
  linked : ∀ scope s, r.scopes[scope]? = some s → Linked (chains changes) scope s.parent
  distinct : ∀ scope, (r.table scope).names.Nodup
  latest : ∀ scope name, (r.table scope).get? name = latest? changes scope name

theorem follows_empty : Follows empty [] where
  count := rfl
  linked scope s h := by
    obtain ⟨hs, rfl⟩ := List.getElem?_eq_some_iff.mp h
    obtain rfl : scope = 0 := by simpa [empty] using hs
    rfl
  distinct scope := by cases scope <;> simp [table, empty, Bindings.names]
  latest scope name := by cases scope <;> simp [table, empty, latest?]

variable {r : MockRegistry} {changes : List Change}

theorem Follows.child (h : Follows r changes) {parent : Nat} (hp : parent < r.scopes.length) :
    Follows (r.child parent).1 (changes ++ [.child parent]) where
  count := by simp [chains_append, Change.extend, MockRegistry.child, h.count]
  linked scope s hs := by
    rw [chains_append, Change.extend]
    by_cases hlt : scope < r.scopes.length
    · rw [MockRegistry.child, List.getElem?_append_left hlt] at hs
      exact (h.linked scope s hs).append _
    · -- the new scope
      rw [MockRegistry.child, List.getElem?_append_right (Nat.le_of_not_lt hlt), List.getElem?_singleton] at hs
      obtain ⟨hi, rfl⟩ : scope - r.scopes.length = 0 ∧ ⟨some parent, []⟩ = s := by simpa using hs
      have hscope : scope = r.scopes.length := by omega
      have hthere : parent < (chains changes).length := h.count ▸ hp
      refine ⟨hscope ▸ hp, (chains changes)[parent], ?_, ?_⟩
      · rw [List.getElem?_append_left hthere, List.getElem?_eq_getElem hthere]
      · rw [hscope, h.count, List.getElem?_append_right (Nat.le_refl _), List.getElem?_eq_getElem hthere]
        simp
  distinct scope := by
    rw [table_child]
    exact h.distinct scope
  latest scope name := by
    rw [table_child, latest?_append, h.latest]
    rfl

theorem Follows.register (h : Follows r changes) {scope : Nat} (m : Mock) (hs : scope < r.scopes.length) :
    Follows (r.register scope m) (changes ++ [.register scope m]) where
  count := by simpa [chains_append, Change.extend, MockRegistry.register] using h.count
  linked other s ho := by
    rw [chains_append, Change.extend]
    simp only [MockRegistry.register, List.getElem?_modify, Option.map_eq_map, Option.map_eq_some_iff] at ho
    obtain ⟨old, hold, rfl⟩ := ho
    have hparent := h.linked other old hold
    split
    · exact hparent
    · exact hparent
  distinct other := by
    by_cases ho : other = scope
    · rw [ho, table_register_self m hs]
      exact Bindings.nodup_names_set (h.distinct scope)
    · rw [table_register_of_ne r m ho]
      exact h.distinct other
  latest other name := by
    rw [latest?_append, Change.registered?]
    by_cases ho : other = scope
    · rw [ho, table_register_self m hs]
      by_cases hn : m.symbol = name
      · simp [hn]
      · simp [hn, Bindings.get?_set_of_ne hn, h.latest]
    · rw [table_register_of_ne r m ho, h.latest]
      simp [Ne.symm ho]

theorem Follows.apply (h : Follows r changes) {c : Change} (hc : c.scope < (chains changes).length) :
    Follows (c.apply r) (changes ++ [c]) := by
  rw [← h.count] at hc
  cases c with
  | child parent => exact h.child hc
  | register scope m => exact h.register m hc

theorem follows_after (legal : Legal changes) : Follows (after changes) changes := by
  induction legal with
  | none => exact follows_empty
  | next _ there ih =>
    rw [after_append]
    exact ih.apply there

theorem Follows.chainFrom (h : Follows r changes) {n scope : Nat} (hn : scope < n) (hs : scope < r.scopes.length) :
    r.chainFrom n scope = (chainOf changes scope).map r.table := by
  induction n generalizing scope with
  | zero => omega
  | succ n ih =>
    obtain ⟨s, hscope⟩ : ∃ s, r.scopes[scope]? = some s := ⟨_, List.getElem?_eq_getElem hs⟩
    have hlinked := h.linked scope s hscope
    have htable : s.entries = r.table scope := by rw [table, hscope]; rfl
    rw [MockRegistry.chainFrom, hscope]
    cases hp : s.parent with
    | none =>
      have hchain : (chains changes)[scope]? = some [scope] := by rwa [hp] at hlinked
      simp only [hp, chainOf, hchain, htable, Option.getD_some, List.map_cons, List.map_nil]
    | some p =>
      rw [hp] at hlinked
      obtain ⟨hlt, outer, ho, hchain⟩ := hlinked
      have hrest := ih (by omega : p < n) (by omega)
      rw [chainOf, ho] at hrest
      simp only [hp, hrest, chainOf, hchain, htable, Option.getD_some, List.map_cons]

theorem Follows.chain (h : Follows r changes) {scope : Nat} (hs : scope < (chains changes).length) :
    r.chain scope = (chainOf changes scope).map r.table :=
  h.chainFrom (Nat.lt_succ_self scope) (h.count ▸ hs)

theorem Follows.lookup? (h : Follows r changes) {scope : Nat} (hs : scope < (chains changes).length) (name : String) :
    (r.chain scope).lookup? name = visible? changes scope name := by
  rw [h.chain hs, visible?]
  induction chainOf changes scope with
  | nil => rfl
  | cons s outer ih =>
    rw [List.map_cons, MockChain.lookup?, ih, h.latest, List.findSome?_cons]
    cases latest? changes s name <;> rfl

theorem Follows.nodup_tables (h : Follows r changes) {scope : Nat} (hs : scope < (chains changes).length) :
    ∀ table ∈ r.chain scope, table.names.Nodup := by
  rw [h.chain hs]
  exact List.forall_mem_map.mpr fun s _ => h.distinct s

theorem Follows.chain_register (h : Follows r changes) {scope target : Nat} (m : Mock)
    (hs : scope < (chains changes).length) (ht : target < (chains changes).length)
    (hout : target ∉ chainOf changes scope) : (r.register target m).chain scope = r.chain scope := by
  have hnext := h.register m (h.count ▸ ht)
  have hsame : chains (changes ++ [.register target m]) = chains changes := chains_append changes _
  rw [hnext.chain (hsame ▸ hs), h.chain hs, chainOf, hsame, ← chainOf]
  exact List.map_congr_left fun s hmem => table_register_of_ne r m (ne_of_mem_of_not_mem hmem hout)

/-- After any changes, each scope sees for a name the latest registration in the innermost scope of its chain that has
one, and a registration is seen from its scope and from those inside it only. A dotted name that is not registered as a
whole stands for a field of what its first part stands for. -/
theorem registry_is_stack_of_tables (legal : Legal changes) {scope : Nat} (hs : scope < (chains changes).length) :
    (((after changes).entries scope).map Mock.symbol).Nodup ∧
    (∀ name, ((after changes).entries scope).find? (·.symbol == name) =
      (visible? changes scope name).map (Mock.mk name)) ∧
    (∀ name, Dotted.IsWord name → ((after changes).resolve? scope name).map (Mock.mk name) =
      ((after changes).entries scope).find? (·.symbol == name)) ∧
    (∀ name, ¬ Dotted.IsWord name → ∃ root path, path ≠ [] ∧ (∀ part ∈ root :: path, Dotted.IsWord part) ∧
      name = Dotted.join (root :: path) ∧
      ∀ v, (after changes).resolve? scope name = some v ↔ visible? changes scope name = some v ∨
        (visible? changes scope name = none ∧
          ∃ base, visible? changes scope root = some base ∧ Mock.FieldAt base path v)) ∧
    ∀ target < (chains changes).length, target ∉ chainOf changes scope → ∀ m,
      (∀ name, ((after changes).register target m).resolve? scope name = (after changes).resolve? scope name) ∧
      ((after changes).register target m).entries scope = (after changes).entries scope := by
  have h := follows_after legal
  have hentry (name : String) : ((after changes).entries scope).find? (·.symbol == name) =
      (visible? changes scope name).map (Mock.mk name) := by
    rw [entries, MockChain.find?_mocks, MockChain.get?_entries (h.nodup_tables hs), h.lookup? hs]
  refine ⟨?_, hentry, fun name hword => ?_, fun name hdotted => ?_, fun target ht hout m => ?_⟩
  · rw [entries, MockChain.symbols_mocks]
    exact MockChain.nodup_names_entries _
  · rw [hentry, resolve?, MockChain.resolve?_of_isWord hword, h.lookup? hs]
  · obtain ⟨root, part, path, hparts⟩ := Dotted.exists_parts_of_dotted hdotted
    refine ⟨root, part :: path, List.cons_ne_nil _ _, fun x hx => ?_, ?_, fun v => ?_⟩
    · exact Dotted.isWord_of_mem_parts (hparts ▸ hx)
    · rw [← hparts, Dotted.join_parts]
    · rw [resolve?, MockChain.resolve?_of_parts hparts, h.lookup? hs, h.lookup? hs]
  · simp only [resolve?, entries, h.chain_register m hs ht hout, implies_true, and_self]

def configChanges : List Change :=
  [.register file ⟨"config", .concrete (.record [("port", .int 80)])⟩, .child file, .child file,
    .register 2 ⟨"config.port", .concrete (.int 8080)⟩]

theorem configChanges_is_stack_of_tables :
    Legal configChanges ∧ 2 < (chains configChanges).length ∧
      (after configChanges).resolve? 2 "config.port" = some (.concrete (.int 8080)) ∧
      1 ∉ chainOf configChanges 2 ∧ ¬ Dotted.IsWord "config.port" ∧
      ((after configChanges).register 1 ⟨"config.port", .concrete .null⟩).resolve? 2 "config.port" =
        some (.concrete (.int 8080)) := by
  have legal : Legal configChanges :=
    .next (.next (.next (.next .none (by decide)) (by decide)) (by decide)) (by decide)
  have hs : 2 < (chains configChanges).length := by decide
  obtain ⟨-, -, -, hdotted, hframe⟩ := registry_is_stack_of_tables legal hs
  obtain ⟨root, path, -, -, -, hresolve⟩ := hdotted "config.port" (by decide)
  have hport := (hresolve (.concrete (.int 8080))).mpr (.inl rfl)
  have hkept := (hframe 1 (by decide) (by decide) ⟨"config.port", .concrete .null⟩).1 "config.port"
  exact ⟨legal, by decide, hport, by decide, by decide, hkept.trans hport⟩

end MockRegistry

end Casewise
