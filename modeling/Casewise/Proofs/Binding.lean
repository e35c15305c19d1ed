import Casewise.Program.Binding
import Casewise.Proofs.Operands
import Casewise.Proofs.Symbolic.Closed

namespace Casewise

variable {α ε : Type} {A : α → Prop} {E : ε → Prop}

def Filling.Meets (A : α → Prop) (E : ε → Prop) : Filling α ε → Prop
  | .given a => A a
  | .default e => E e
  | .rest as => ∀ a ∈ as, A a
  | .keywordRest bs => ∀ b ∈ bs, A b.2

theorem Filling.Meets.imp {B : α → Prop} {f : Filling α ε} (h : f.Meets A E) (hb : ∀ a, A a → B a) : f.Meets B E := by
  cases f with
  | given a => exact hb a h
  | default e => exact h
  | rest as => exact fun a hm => hb a (h a hm)
  | keywordRest bs => exact fun b hm => hb b.2 (h b hm)

theorem yields_foldlM {σ κ β : Type} {P : σ → Prop} {Q : κ → Prop} {f : σ → κ → Except β σ} {ks : List κ}
    (hk : ∀ k ∈ ks, Q k) (hf : ∀ s k, P s → Q k → Yields (f s k) P) {s : σ} (hs : P s) :
    Yields (ks.foldlM f s) P := by
  induction ks generalizing s with
  | nil => exact yields_ok hs
  | cons k ks ih =>
    obtain ⟨hk, hks⟩ := List.forall_mem_cons.mp hk
    rw [List.foldlM_cons]
    exact (hf s k hs hk).bind fun s' hs' => ih hks hs'

namespace Params

variable (p : Params ε)

theorem yields_fillKeyword {function : String} {s : Bindings (Filling α ε) × Bindings α} {k : String × α}
    (hs : (∀ b ∈ s.1, b.2.Meets A E) ∧ ∀ b ∈ s.2, A b.2) (hk : A k.2) :
    Yields (p.fillKeyword function s k) fun s => (∀ b ∈ s.1, b.2.Meets A E) ∧ ∀ b ∈ s.2, A b.2 := by
  unfold fillKeyword
  dsimp only
  split
  · exact yields_error
  · split
    · exact yields_ok ⟨Bindings.forall_mem_set (p := Filling.Meets A E) k.1 hs.1 hk, hs.2⟩
    · split
      · exact yields_ok ⟨hs.1, Bindings.forall_mem_set k.1 hs.2 hk⟩
      · exact yields_error

section

variable {p} (hd : ∀ e ∈ p.defaultValues, E e)

include hd

theorem forall_mem_fillDefaults {bound : Bindings (Filling α ε)} (hb : ∀ b ∈ bound, b.2.Meets A E) :
    ∀ b ∈ p.fillDefaults bound, b.2.Meets A E := by
  have hpositional : ∀ b ∈ p.positionalDefaults, E b.2 := Bindings.forall_mem_ofPairs fun b hm =>
    hd b.2 (List.mem_append_left _ (List.of_mem_zip hm).2)
  unfold fillDefaults
  generalize p.names = names
  induction names generalizing bound with
  | nil => exact hb
  | cons n names ih =>
    refine ih ?_
    dsimp only
    split
    · next e he =>
      split
      · exact hb
      · exact Bindings.forall_mem_set (p := Filling.Meets A E) n hb (hpositional _ (Bindings.mem_of_get? he))
    · exact hb

theorem forall_mem_fillKeywordOnly (function : String) {bound : Bindings (Filling α ε)}
    (hb : ∀ b ∈ bound, b.2.Meets A E) :
    ∀ b ∈ (fillKeywordOnly function bound p.keywordOnly).entries, b.2.Meets A E := by
  have hdefault : ∀ k ∈ p.keywordOnly, ∀ e, k.2 = some e → E e := fun k hk e he =>
    hd e (List.mem_append_right _ (List.mem_filterMap.mpr ⟨k, hk, he⟩))
  generalize p.keywordOnly = ks at hdefault
  induction ks generalizing bound with
  | nil => exact hb
  | cons k ks ih =>
    obtain ⟨hk, hks⟩ := List.forall_mem_cons.mp hdefault
    obtain ⟨name, default⟩ := k
    unfold fillKeywordOnly
    split
    · exact ih hb hks
    · cases default with
      | none => exact hb
      | some e => exact ih (Bindings.forall_mem_set (p := Filling.Meets A E) name hb (hk e rfl)) hks

omit hd in
theorem forall_mem_fillRests {surplus : List α} {extra : Bindings α} {bound : Bindings (Filling α ε)}
    (hs : ∀ a ∈ surplus, A a) (hx : ∀ b ∈ extra, A b.2) (hb : ∀ b ∈ bound, b.2.Meets A E) :
    ∀ b ∈ p.fillRests surplus extra bound, b.2.Meets A E := by
  unfold fillRests
  dsimp only
  cases p.rest with
  | none =>
    cases p.keywordRest with
    | none => exact hb
    | some k => exact Bindings.forall_mem_set (p := Filling.Meets A E) k hb hx
  | some r =>
    have hr := Bindings.forall_mem_set (p := Filling.Meets A E) r hb (a := .rest surplus) hs
    cases p.keywordRest with
    | none => exact hr
    | some k => exact Bindings.forall_mem_set (p := Filling.Meets A E) k hr hx

theorem yields_fill {function : String} {args : List α} {keywords : Bindings α} (ha : ∀ a ∈ args, A a)
    (hk : ∀ b ∈ keywords, A b.2) :
    Yields (p.fill function args keywords) fun filled => ∀ b ∈ filled.entries, b.2.Meets A E := by
  have hpositional : ∀ b ∈ Bindings.ofPairs (p.names.zip (args.map Filling.given)), Filling.Meets A E b.2 := by
    refine Bindings.forall_mem_ofPairs fun b hb => ?_
    obtain ⟨a, hm, hab⟩ := List.mem_map.mp (List.of_mem_zip hb).2
    exact hab ▸ ha a hm
  unfold fill
  split
  · exact yields_error
  · have hbound := yields_foldlM (f := p.fillKeyword function) hk (fun _ _ hs hk => p.yields_fillKeyword hs hk)
      (s := (_, [])) ⟨hpositional, nofun⟩
    refine hbound.bind fun s ⟨hb, hx⟩ => ?_
    have hfilled := forall_mem_fillKeywordOnly hd function (forall_mem_fillDefaults hd hb)
    dsimp only
    split
    · exact yields_error
    · split
      · exact yields_ok hfilled
      · exact yields_ok (forall_mem_fillRests (fun a hm => ha a (List.mem_of_mem_drop hm)) hx hfilled)

end

end Params

end Casewise
