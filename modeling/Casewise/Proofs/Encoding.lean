import Casewise.Proofs.Producers
import Casewise.Proofs.Union
import Mathlib.Data.List.Perm.Basic

namespace Casewise

theorem sortBy_of_pairwise {α : Type} {le : α → α → Bool} {as : List α} (h : as.Pairwise fun a b => le a b = true) :
    sortBy le as = as := by
  rw [sortBy_eq_insertionSort]
  exact h.insertionSort_eq

theorem forall₂_pairwise {α β : Type} {R : α → β → Prop} {S : α → α → Prop} {T : β → β → Prop} {xs : List α}
    {ys : List β} (h : List.Forall₂ R xs ys) (hs : xs.Pairwise S)
    (ht : ∀ x y x' y', R x y → R x' y' → S x x' → T y y') : ys.Pairwise T := by
  induction h with
  | nil => exact .nil
  | cons hxy hrest ih =>
    obtain ⟨hx, hxs⟩ := List.pairwise_cons.mp hs
    refine List.pairwise_cons.mpr ⟨fun y' hy' => ?_, ih hxs⟩
    obtain ⟨x', hx', hr⟩ := forall₂_partner hrest hy'
    exact ht _ _ _ _ hxy hr (hx x' hx')

namespace Ty

theorem record_of_increasing {fs : List (String × Ty)} (h : (Bindings.names fs).Pairwise (· < ·)) :
    record fs = .object fs := by
  have hnodup : (Bindings.names ([] ++ fs)).Nodup := h.imp ne_of_lt
  have hofPairs : Bindings.ofPairs fs = fs := Bindings.update_of_nodup hnodup
  rw [record, hofPairs, sortBy_of_pairwise]
  exact (List.pairwise_map.mp h).imp fun hlt => (textLe_iff _ _).mpr (le_of_lt hlt)

inductive Rearranged : Ty → Ty → Prop
  | refl (t : Ty) : Rearranged t t
  | oneOf {xs ys zs : List Ty} (members : List.Forall₂ Rearranged xs ys) (order : ys.Perm zs) :
      Rearranged (.oneOf xs) (.oneOf zs)
  | object {fs gs : List (String × Ty)} (names : Bindings.names fs = Bindings.names gs)
      (types : List.Forall₂ Rearranged (fs.map (·.2)) (gs.map (·.2))) : Rearranged (.object fs) (.object gs)
  | array {e e' : Ty} (element : Rearranged e e') : Rearranged (.array e) (.array e')
  | tuple {xs ys : List Ty} (elements : List.Forall₂ Rearranged xs ys) : Rearranged (.tuple xs) (.tuple ys)
  | function {ps qs : List Ty} {r r' : Ty} (params : List.Forall₂ Rearranged ps qs) (returns : Rearranged r r') :
      Rearranged (.function ps r) (.function qs r')

theorem like_congr {xs zs vs : List Ty} (hx : ∀ x ∈ xs, ∃ z ∈ zs, ∀ v, same x v = same z v)
    (hz : ∀ z ∈ zs, ∃ x ∈ xs, ∀ v, same x v = same z v) : Like xs vs ↔ Like zs vs := by
  constructor
  · rintro ⟨left, right⟩
    refine ⟨fun z hz' => ?_, fun v hv => ?_⟩
    · obtain ⟨x, hx', he⟩ := hz z hz'
      simpa only [he] using left x hx'
    · obtain ⟨x, hx', hs⟩ := right v hv
      obtain ⟨z, hz', he⟩ := hx x hx'
      exact ⟨z, hz', he v ▸ hs⟩
  · rintro ⟨left, right⟩
    refine ⟨fun x hx' => ?_, fun v hv => ?_⟩
    · obtain ⟨z, hz', he⟩ := hx x hx'
      simpa only [he] using left z hz'
    · obtain ⟨z, hz', hs⟩ := right v hv
      obtain ⟨x, hx', he⟩ := hz z hz'
      exact ⟨x, hx', (he v).symm ▸ hs⟩

theorem forall₂_congr_left {α β : Type} {P Q : α → β → Prop} {xs ys : List α} {zs : List β}
    (h : List.Forall₂ (fun x y => ∀ z, P x z ↔ Q y z) xs ys) : List.Forall₂ P xs zs ↔ List.Forall₂ Q ys zs := by
  induction h generalizing zs with
  | nil => cases zs <;> simp
  | cons hxy _ ih => cases zs <;> simp [hxy, ih]

-- Types with NaN are not equal to themselves, so this does not follow from `same t u`.
theorem Rearranged.same_eq {t u : Ty} (h : Rearranged t u) (v : Ty) : same t v = same u v := by
  induction t using induct generalizing u v with
  | oneOf xs ih =>
    cases h with
    | refl => rfl
    | @oneOf _ ys zs members order =>
      have hm := forall₂_imp_mem members fun x hx y hxy v => ih x hx hxy v
      rw [Bool.eq_iff_iff, same_oneOf_left, same_oneOf_left]
      refine exists_congr fun vs => and_congr_right fun _ => like_congr (fun x hx => ?_) fun z hz => ?_
      · obtain ⟨y, hy, he⟩ := forall₂_partner hm.flip hx
        exact ⟨y, order.mem_iff.mp hy, he⟩
      · exact forall₂_partner hm (order.mem_iff.mpr hz)
  | object fs ih =>
    cases h with
    | refl => rfl
    | object names types =>
      rw [Bool.eq_iff_iff, same_object_left, same_object_left]
      refine exists_congr fun vs => and_congr_right fun _ => forall₂_congr_left ?_
      refine forall₂_imp_mem (Bindings.forall₂_iff.mpr ⟨names, types⟩) fun f hf g hfg v => ?_
      rw [hfg.1, ih f hf hfg.2]
  | array e ih =>
    cases h with
    | refl => rfl
    | array element =>
      rw [Bool.eq_iff_iff, same_array_left, same_array_left]
      simp only [ih element]
  | tuple xs ih =>
    cases h with
    | refl => rfl
    | tuple elements =>
      rw [Bool.eq_iff_iff, same_tuple_left, same_tuple_left]
      refine exists_congr fun vs => and_congr_right fun _ => forall₂_congr_left ?_
      exact forall₂_imp_mem elements fun x hx y hxy v => by rw [ih x hx hxy]
  | function ps r ihp ihr =>
    cases h with
    | refl => rfl
    | function params returns =>
      rw [Bool.eq_iff_iff, same_function_left, same_function_left]
      simp only [ihr returns]
      refine exists_congr fun vs => exists_congr fun v => and_congr_right fun _ => and_congr_left fun _ => ?_
      exact forall₂_congr_left (forall₂_imp_mem params fun p hp q hpq v => by rw [ihp p hp hpq])
  | _ =>
    cases h
    rfl

theorem Rearranged.same_false {x y x' y' : Ty} (h : Rearranged x y) (h' : Rearranged x' y')
    (hs : same x x' = false) : same y y' = false := by
  rw [← h.same_eq y', Bool.eq_false_iff]
  intro hxy
  have hyx : same x' x = true := by rw [h'.same_eq x]; exact same_symm hxy
  exact Bool.false_ne_true (hs.symm.trans (same_symm hyx))

theorem Rearranged.isAlternative_eq {t u : Ty} (h : Rearranged t u) : isAlternative u = isAlternative t := by
  cases h <;> rfl

theorem Rearranged.eq_of_leaf {t u : Ty} (h : Rearranged t u) (hu : isPrimitiveOrLiteral u = true) : t = u := by
  cases h with
  | refl => rfl
  | _ => simp [isPrimitiveOrLiteral] at hu

theorem Reduced.rearranged {xs ys zs : List Ty} (h : Reduced xs) (members : List.Forall₂ Rearranged xs ys)
    (order : ys.Perm zs) : Reduced zs := by
  have origin : ∀ z ∈ zs, ∃ x ∈ xs, Rearranged x z := fun z hz => forall₂_partner members (order.mem_iff.mpr hz)
  have leaf : ∀ z ∈ zs, isPrimitiveOrLiteral z = true → z ∈ xs := by
    intro z hz hl
    obtain ⟨x, hx, hxz⟩ := origin z hz
    exact hxz.eq_of_leaf hl ▸ hx
  refine ⟨?_, fun z hz => ?_, fun z hz => ?_, fun hb => ?_⟩
  · have hys : ys.Pairwise fun a b => same a b = false :=
      forall₂_pairwise members h.distinct fun _ _ _ _ hxy hxy' => hxy.same_false hxy'
    refine (order.pairwise_iff fun {a b} hab => ?_).mp hys
    exact Bool.eq_false_iff.mpr fun hba => Bool.false_ne_true (hab.symm.trans (same_symm hba))
  · obtain ⟨x, hx, hxz⟩ := origin z hz
    rw [hxz.isAlternative_eq, h.plain x hx]
  · rw [Bool.eq_false_iff]
    intro ha
    obtain ⟨s, rfl, hp⟩ := absorbed_iff.mp ha
    have hx := h.unabsorbed _ (leaf _ hz rfl)
    exact Bool.false_ne_true (hx.symm.trans (absorbed_iff.mpr ⟨s, rfl, leaf _ hp rfl⟩))
  · simp only [any_isBool] at hb
    exact h.unfolded ⟨any_isBool.mpr (leaf _ hb.1 rfl), any_isBool.mpr (leaf _ hb.2 rfl)⟩

theorem forall₂_encode? {ts : List Ty} {ds : List Datum} (h : encodeAll? ts = some ds) :
    List.Forall₂ (fun t d => encode? t = some d) ts ds := by
  induction ts generalizing ds with
  | nil =>
    obtain rfl := Option.some.inj h
    exact .nil
  | cons t ts ih =>
    simp only [encodeAll?, Option.bind_eq_bind, Option.bind_eq_some_iff] at h
    obtain ⟨d, hd, ds', hds, he⟩ := h
    obtain rfl := Option.some.inj he
    exact .cons hd (ih hds)

theorem forall₂_encode?_fields {fs : List (String × Ty)} {es : List (String × Datum)} (h : encodeFields? fs = some es) :
    List.Forall₂ (fun f e => f.1 = e.1 ∧ encode? f.2 = some e.2) fs es := by
  induction fs generalizing es with
  | nil =>
    obtain rfl := Option.some.inj h
    exact .nil
  | cons f fs ih =>
    simp only [encodeFields?, Option.bind_eq_bind, Option.bind_eq_some_iff] at h
    obtain ⟨d, hd, es', hes, he⟩ := h
    obtain rfl := Option.some.inj he
    exact .cons ⟨rfl, hd⟩ (ih hes)

theorem encodeAll?_isSome {ts : List Ty} : (encodeAll? ts).isSome = true ↔ ∀ t ∈ ts, (encode? t).isSome = true := by
  induction ts with
  | nil => simp [encodeAll?]
  | cons t ts ih =>
    rw [List.forall_mem_cons, ← ih, encodeAll?]
    cases encode? t <;> cases encodeAll? ts <;> simp

theorem encodeFields?_isSome {fs : List (String × Ty)} :
    (encodeFields? fs).isSome = true ↔ ∀ f ∈ fs, (encode? f.2).isSome = true := by
  induction fs with
  | nil => simp [encodeFields?]
  | cons f fs ih =>
    rw [List.forall_mem_cons, ← ih, encodeFields?]
    cases encode? f.2 <;> cases encodeFields? fs <;> simp

theorem encode?_isSome_step (t : Ty) :
    (encode? t).isSome = true ↔ isSortable t = true ∧ ∀ c ∈ t.children, (encode? c).isSome = true := by
  cases t with
  | oneOf ms =>
    rw [children, ← encodeAll?_isSome, encode?, isSortable]
    cases names? ms <;> cases encodeAll? ms <;> simp
  | object fs =>
    rw [children, List.forall_mem_map, ← encodeFields?_isSome, encode?]
    cases encodeFields? fs <;> simp [isSortable]
  | array e =>
    rw [children, List.forall_mem_singleton, encode?]
    cases encode? e <;> simp [isSortable]
  | tuple es =>
    rw [children, ← encodeAll?_isSome, encode?]
    cases encodeAll? es <;> simp [isSortable]
  | function ps r =>
    rw [children, List.forall_mem_cons, ← encodeAll?_isSome, encode?]
    cases encodeAll? ps <;> cases encode? r <;> simp [isSortable]
  | _ => simp [encode?, isSortable, children]

def Encodable (t : Ty) : Prop := t.every true isSortable = true

instance (t : Ty) : Decidable t.Encodable := inferInstanceAs (Decidable (_ = true))

theorem encode?_isSome {t : Ty} : (encode? t).isSome = true ↔ t.Encodable := by
  induction t using ofChildren with
  | step t ih =>
    rw [encode?_isSome_step, Encodable, every_iff]
    exact and_congr_right fun _ => forall₂_congr ih

theorem encodable_of_printable {t : Ty} (h : t.Printable) : t.Encodable := by
  induction t using ofChildren with
  | step t ih =>
    refine every_iff.mpr ⟨?_, fun c hc => ih c hc (every_child h hc)⟩
    cases t with
    | oneOf ms => exact names?_isSome.mpr fun m hm => name?_isSome (every_child h hm)
    | _ => rfl

theorem orderByName_perm {names : List String} {ds : List Datum} (h : ds.length ≤ names.length) :
    (orderByName names ds).Perm ds := by
  have hp := (sortBy_perm (fun a b : String × Datum => textLe a.1 b.1) (names.zip ds)).map (·.2)
  rwa [List.map_snd_zip h] at hp

theorem decodeAll_eq_ok {ds : List Datum} {ts : List Ty} (h : List.Forall₂ (fun d t => decode d = .ok t) ds ts) :
    decodeAll ds = .ok ts := by
  induction h with
  | nil => rfl
  | cons hd _ ih =>
    rw [decodeAll, hd, ih]
    rfl

theorem decodeEach_eq_ok {es : List (String × Datum)} {fs : List (String × Ty)}
    (h : List.Forall₂ (fun e f => e.1 = f.1 ∧ decode e.2 = .ok f.2) es fs) : decodeEach es = .ok fs := by
  induction h with
  | nil => rfl
  | cons hd _ ih =>
    rw [decodeEach, hd.2, ih, hd.1]
    rfl

theorem decode_primitive (p : Primitive) : decode (tagged "primitive" [("name", .text p.name)]) = .ok (.primitive p) := by
  cases p <;> rfl

theorem decode_union (ds : List Datum) :
    decode (tagged "union" [("members", .list ds)]) = (do return union (← decodeAll ds)) := rfl

theorem decode_object (es : List (String × Datum)) :
    decode (tagged "object" [("fields", .record es)]) = (do return record (← decodeEach es)) := rfl

theorem decode_array (d : Datum) : decode (tagged "array" [("element", d)]) = (do return .array (← decode d)) := rfl

theorem decode_tuple (ds : List Datum) :
    decode (tagged "tuple" [("elements", .list ds)]) = (do return .tuple (← decodeAll ds)) := rfl

theorem decode_function (ds : List Datum) (d : Datum) :
    decode (tagged "function" [("params", .list ds), ("returns", d)]) =
      (do let ps ← decodeAll ds; return .function ps (← decode d)) := rfl

theorem forall₂_through {α β γ : Type} {P : α → β → Prop} {Q : β → γ → Prop} {R : α → γ → Prop} {xs : List α}
    {ys : List β} (h : List.Forall₂ P xs ys) (hx : ∀ x ∈ xs, ∀ y, P x y → ∃ z, Q y z ∧ R x z) :
    ∃ zs, List.Forall₂ Q ys zs ∧ List.Forall₂ R xs zs := by
  induction h with
  | nil => exact ⟨[], .nil, .nil⟩
  | cons hxy _ ih =>
    obtain ⟨z, hq, hr⟩ := hx _ (by simp) _ hxy
    obtain ⟨zs, hqs, hrs⟩ := ih fun x hx' => hx x (List.mem_cons_of_mem _ hx')
    exact ⟨z :: zs, .cons hq hqs, .cons hr hrs⟩

theorem decode_of_encode? {t : Ty} {d : Datum} (wf : t.WellFormed) (h : encode? t = some d) :
    ∃ u, decode d = .ok u ∧ Rearranged t u := by
  induction t using induct generalizing d with
  | primitive p =>
    obtain rfl := Option.some.inj h
    exact ⟨_, decode_primitive p, .refl _⟩
  | oneOf ms ih =>
    obtain ⟨⟨hlen, hred⟩, hms⟩ := wellFormed_oneOf.mp wf
    simp only [encode?, Option.bind_eq_bind, Option.bind_eq_some_iff] at h
    obtain ⟨names, hn, ds, hds, he⟩ := h
    obtain rfl := Option.some.inj he
    obtain ⟨us, hdec, hus⟩ := forall₂_through (forall₂_encode? hds) fun m hm d => ih m hm (hms m hm)
    have hperm : (orderByName names ds).Perm ds :=
      orderByName_perm (by rw [names?_length hn, (forall₂_encode? hds).length_eq])
    -- The decoded alternatives come in the order of the names.
    obtain ⟨zs, hzs, hzu⟩ := List.perm_comp_forall₂ hperm hdec
    have hredz : Reduced zs := hred.rearranged hus hzu.symm
    have hlenz : 2 ≤ zs.length := by rw [hzu.length_eq, ← hus.length_eq]; exact hlen
    refine ⟨.oneOf zs, ?_, .oneOf hus hzu.symm⟩
    rw [decode_union, decodeAll_eq_ok hzs, ← union_of_reduced hlenz hredz]
    rfl
  | object fs ih =>
    obtain ⟨hnames, hfs⟩ := wellFormed_object.mp wf
    simp only [encode?, Option.bind_eq_bind, Option.bind_eq_some_iff] at h
    obtain ⟨es, hes, he⟩ := h
    obtain rfl := Option.some.inj he
    have field : ∀ f ∈ fs, ∀ e : String × Datum, f.1 = e.1 ∧ encode? f.2 = some e.2 →
        ∃ g : String × Ty, (e.1 = g.1 ∧ decode e.2 = .ok g.2) ∧ f.1 = g.1 ∧ Rearranged f.2 g.2 := by
      intro f hf e he
      obtain ⟨u, hu, hr⟩ := ih f hf (hfs f hf) he.2
      exact ⟨(f.1, u), ⟨he.1.symm, hu⟩, rfl, hr⟩
    obtain ⟨gs, hdec, hgs⟩ := forall₂_through (forall₂_encode?_fields hes) field
    obtain ⟨hkeys, htypes⟩ := Bindings.forall₂_iff.mp hgs
    refine ⟨.object gs, ?_, .object hkeys htypes⟩
    rw [decode_object, decodeEach_eq_ok hdec, ← record_of_increasing (hkeys ▸ hnames)]
    rfl
  | array e ih =>
    simp only [encode?, Option.bind_eq_bind, Option.bind_eq_some_iff] at h
    obtain ⟨d', hd, he⟩ := h
    obtain rfl := Option.some.inj he
    obtain ⟨u, hu, hr⟩ := ih (wellFormed_array.mp wf) hd
    refine ⟨.array u, ?_, .array hr⟩
    rw [decode_array, hu]
    rfl
  | tuple es ih =>
    simp only [encode?, Option.bind_eq_bind, Option.bind_eq_some_iff] at h
    obtain ⟨ds, hds, he⟩ := h
    obtain rfl := Option.some.inj he
    obtain ⟨us, hdec, hus⟩ := forall₂_through (forall₂_encode? hds) fun e he d => ih e he (wellFormed_tuple.mp wf e he)
    refine ⟨.tuple us, ?_, .tuple hus⟩
    rw [decode_tuple, decodeAll_eq_ok hdec]
    rfl
  | function ps r ihp ihr =>
    obtain ⟨hr, hps⟩ := wellFormed_function.mp wf
    simp only [encode?, Option.bind_eq_bind, Option.bind_eq_some_iff] at h
    obtain ⟨ds, hds, d', hd, he⟩ := h
    obtain rfl := Option.some.inj he
    obtain ⟨us, hdec, hus⟩ := forall₂_through (forall₂_encode? hds) fun p hp d => ihp p hp (hps p hp)
    obtain ⟨u, hu, hru⟩ := ihr hr hd
    refine ⟨.function us u, ?_, .function hus hru⟩
    rw [decode_function, decodeAll_eq_ok hdec, hu]
    rfl
  | throws x =>
    obtain rfl := Option.some.inj h
    exact ⟨_, by cases x <;> rfl, .refl _⟩
  | _ =>
    obtain rfl := Option.some.inj h
    exact ⟨_, rfl, .refl _⟩

def ComesBack (t : Ty) : Prop :=
  ∃ d u, encode? t = some d ∧ decode d = .ok u ∧ Rearranged t u ∧ ∀ v, same u v = same t v

theorem comesBack_iff {t : Ty} (wf : t.WellFormed) : t.ComesBack ↔ t.Encodable := by
  rw [← encode?_isSome]
  constructor
  · rintro ⟨d, -, hd, -⟩
    rw [hd]
    rfl
  · intro h
    obtain ⟨d, hd⟩ := Option.isSome_iff_exists.mp h
    obtain ⟨u, hu, hr⟩ := decode_of_encode? wf hd
    exact ⟨d, u, hd, hu, hr, fun v => (hr.same_eq v).symm⟩

theorem decode_encode_gives_type_again (t : Ty) (h : t.WellFormed ∨ ∃ d, decode d = .ok t) :
    (t.ComesBack ↔ t.Encodable) ∧ (t.Printable → t.Encodable) ∧ (¬ t.Encodable → encode? t = none) := by
  have wf : t.WellFormed := by
    rcases h with wf | ⟨d, hd⟩
    · exact wf
    · exact yields_decode d t hd
  refine ⟨comesBack_iff wf, encodable_of_printable, fun hn => ?_⟩
  rw [← encode?_isSome] at hn
  simpa using hn

def mixed : Ty :=
  .tuple [.oneOf [text "b", int 1, bool true, .object [("x", .oneOf [.null, text "a"]), ("y", number)]],
    .literal (.number (.float 1)), .function [.array (.oneOf [text "b", text "a"])] .never]

def unlisted : Ty := .oneOf [int digitBound, int 2]

theorem mixed_comes_back :
    (mixed.WellFormed ∧ mixed.Printable ∧ mixed.ComesBack) ∧
    (∃ d, decode d = .ok (.oneOf [text "a", int 1]) ∧ ComesBack (.oneOf [text "a", int 1])) ∧
    (unlisted.WellFormed ∧ encode? unlisted = none) := by
  refine ⟨?_, ?_, ?_⟩
  · have wf : mixed.WellFormed := by decide +kernel
    have printable : mixed.Printable := by decide +kernel
    have back := decode_encode_gives_type_again mixed (.inl wf)
    exact ⟨wf, printable, back.1.mpr (back.2.1 printable)⟩
  · let d := tagged "union" [("members", .list [tagged "literal" [("value", .text "a")],
      tagged "literal" [("value", .int 1)], tagged "literal" [("value", .text "a")]])]
    have hd : decode d = .ok (.oneOf [text "a", int 1]) := rfl
    exact ⟨d, hd, (decode_encode_gives_type_again _ (.inr ⟨d, hd⟩)).1.mpr (by decide +kernel)⟩
  · have wf : unlisted.WellFormed := by decide +kernel
    exact ⟨wf, (decode_encode_gives_type_again unlisted (.inl wf)).2.2 (by decide +kernel)⟩

end Ty

end Casewise
