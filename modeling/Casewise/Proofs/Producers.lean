import Casewise.Concrete.Value
import Casewise.Proofs.ArgumentValues
import Casewise.Ty.Encoding

namespace Casewise

namespace Ty

theorem yields_binary (op : BinaryOp) {l r : Ty} (hl : l.WellFormed) (hr : r.WellFormed) :
    Yields (binary op l r) WellFormed := permissive_wellFormed.binary op hl hr

theorem yields_compare (op : CompareOp) {l r : Ty} (hl : l.WellFormed) (hr : r.WellFormed) :
    Yields (compare op l r) WellFormed := permissive_wellFormed.compare op hl hr

theorem yields_unary (op : UnaryOp) (t : Ty) : Yields (unary op t) WellFormed := permissive_wellFormed.unary op t

mutual

theorem wellFormed_ofDatum : ∀ d : Datum, (ofDatum d).WellFormed
  | .null => rfl
  | .scalar _ => rfl
  | .list items => wellFormed_array.mpr (wellFormed_union (wellFormed_ofItems items))
  | .record fields => wellFormed_record (wellFormed_ofFields fields)

theorem wellFormed_ofItems : ∀ ds : List Datum, ∀ t ∈ ofItems ds, t.WellFormed
  | [] => nofun
  | d :: ds => List.forall_mem_cons.mpr ⟨wellFormed_ofDatum d, wellFormed_ofItems ds⟩

theorem wellFormed_ofFields : ∀ fs : List (String × Datum), ∀ f ∈ ofFields fs, f.2.WellFormed
  | [] => nofun
  | (_, d) :: fs => List.forall_mem_cons.mpr ⟨wellFormed_ofDatum d, wellFormed_ofFields fs⟩

end

theorem yields_namedPrimitive (d : Datum) : Yields (namedPrimitive d) WellFormed := by
  unfold namedPrimitive
  split
  · refine yields_ok ?_
    cases Primitive.ofName? _ <;> rfl
  · exact yields_ok rfl
  · exact yields_ok rfl
  · exact yields_error
  · exact yields_error

theorem yields_literalOf (d : Datum) : Yields (literalOf d) WellFormed := by
  cases d with
  | scalar s => exact yields_ok rfl
  | _ => exact yields_error

theorem yields_decodeOther (d : Datum) : Yields (decodeOther d) fun ts => ∀ t ∈ ts, t.WellFormed := by
  unfold decodeOther
  split
  · split
    · exact yields_ok nofun
    · exact yields_error
  · split
    · exact yields_ok nofun
    · exact yields_error
  · exact yields_error

mutual

theorem yields_decode : ∀ d : Datum, Yields (decode d) WellFormed
  | .null => yields_error
  | .scalar _ => yields_error
  | .list _ => yields_error
  | .record fields => by
    unfold decode
    split
    · exact yields_bind fun d => yields_namedPrimitive d
    · exact yields_bind fun d => yields_literalOf d
    · exact (yields_decodeList "members" fields).bind fun ts hts => yields_ok (wellFormed_union hts)
    · exact (yields_decodeRecord "fields" fields).bind fun fs hfs => yields_ok (wellFormed_record hfs)
    · exact (yields_decodeField "element" fields).bind fun t ht => yields_ok (wellFormed_array.mpr ht)
    · exact (yields_decodeList "elements" fields).bind fun ts hts => yields_ok (wellFormed_tuple.mpr hts)
    · refine (yields_decodeList "params" fields).bind fun ps hps => ?_
      exact (yields_decodeField "returns" fields).bind fun r hr => yields_ok (wellFormed_function.mpr ⟨hr, hps⟩)
    · exact yields_ok rfl
    · exact yields_ok rfl
    · exact yields_ok rfl

theorem yields_decodeField (key : String) : ∀ fs : List (String × Datum), Yields (decodeField key fs) WellFormed
  | [] => yields_error
  | (k, d) :: rest => by
    unfold decodeField
    split
    · exact yields_decode d
    · exact yields_decodeField key rest

theorem yields_decodeList (key : String) :
    ∀ fs : List (String × Datum), Yields (decodeList key fs) fun ts => ∀ t ∈ ts, t.WellFormed
  | [] => yields_error
  | (k, d) :: rest => by
    unfold decodeList
    split
    · exact yields_decodeItems d
    · exact yields_decodeList key rest

theorem yields_decodeItems : ∀ d : Datum, Yields (decodeItems d) fun ts => ∀ t ∈ ts, t.WellFormed
  | .list items => yields_decodeAll items
  | .null => yields_decodeOther .null
  | .scalar s => yields_decodeOther (.scalar s)
  | .record fields => yields_decodeOther (.record fields)

theorem yields_decodeAll : ∀ ds : List Datum, Yields (decodeAll ds) fun ts => ∀ t ∈ ts, t.WellFormed
  | [] => yields_ok nofun
  | d :: ds => (yields_decode d).bind fun _ ht => (yields_decodeAll ds).bind fun _ hts =>
      yields_ok (List.forall_mem_cons.mpr ⟨ht, hts⟩)

theorem yields_decodeRecord (key : String) :
    ∀ fs : List (String × Datum), Yields (decodeRecord key fs) fun gs => ∀ g ∈ gs, g.2.WellFormed
  | [] => yields_error
  | (k, d) :: rest => by
    unfold decodeRecord
    split
    · exact yields_decodeFields d
    · exact yields_decodeRecord key rest

theorem yields_decodeFields : ∀ d : Datum, Yields (decodeFields d) fun gs => ∀ g ∈ gs, g.2.WellFormed
  | .record fields => yields_decodeEach fields
  | .null => yields_error
  | .scalar _ => yields_error
  | .list _ => yields_error

theorem yields_decodeEach :
    ∀ fs : List (String × Datum), Yields (decodeEach fs) fun gs => ∀ g ∈ gs, g.2.WellFormed
  | [] => yields_ok nofun
  | (_, d) :: fs => (yields_decode d).bind fun _ ht => (yields_decodeEach fs).bind fun _ hfs =>
      yields_ok (List.forall_mem_cons.mpr ⟨ht, hfs⟩)

end

end Ty

namespace Concrete.Value

variable (s : Store)

mutual

theorem wellFormed_type : ∀ v : Value, (type s v).WellFormed
  | .null => rfl
  | .scalar _ => rfl
  | .other .. => rfl
  | .list vs => Ty.wellFormed_array.mpr (Ty.wellFormed_union (wellFormed_types vs))
  | .tuple vs => Ty.wellFormed_tuple.mpr (wellFormed_types vs)
  | .set vs => Ty.wellFormed_array.mpr (Ty.wellFormed_union (wellFormed_types vs))
  | .dict es => by
    unfold type
    cases hf : fields? s es with
    | none => rfl
    | some fs => exact Ty.wellFormed_record (wellFormed_fields? es fs hf)
  | .builtin kind _ => by
    unfold type
    split <;> rfl
  | .exception .. => rfl
  | .object id => by
    unfold type
    split <;> rfl

theorem wellFormed_types : ∀ vs : List Value, ∀ t ∈ types s vs, t.WellFormed
  | [] => nofun
  | v :: vs => List.forall_mem_cons.mpr ⟨wellFormed_type v, wellFormed_types vs⟩

theorem wellFormed_fields? : ∀ (es : List (Value × Value)) (fs : List (String × Ty)), fields? s es = some fs →
    ∀ f ∈ fs, f.2.WellFormed
  | [], fs, h => by
    obtain rfl := Option.some.inj h
    nofun
  | (k, v) :: es, fs, h => by
    simp only [fields?, Option.bind_eq_bind, Option.bind_eq_some_iff] at h
    obtain ⟨name, _, gs, hg, hfs⟩ := h
    obtain rfl := Option.some.inj hfs
    exact List.forall_mem_cons.mpr ⟨wellFormed_type v, wellFormed_fields? es gs hg⟩

end

end Concrete.Value

theorem Argument.closed_wellFormed : Closed (fun _ => True) Ty.WellFormed where
  ofDatum _ := Ty.wellFormed_ofDatum _
  null := trivial
  number _ := ⟨trivial, trivial⟩
  text _ := trivial
  bool _ := trivial
  list _ := trivial
  record _ := trivial
  primitive _ := rfl
  unknown := rfl
  never := rfl
  throws _ := rfl
  union := Ty.wellFormed_union
  object := Ty.wellFormed_record
  array := Ty.wellFormed_array.mpr
  tuple := Ty.wellFormed_tuple.mpr
  function hr hps := Ty.wellFormed_function.mpr ⟨hr, hps⟩

theorem ArgumentText.wellFormed_evaluate (arg : ArgumentText) : arg.evaluate.1.type.WellFormed :=
  Argument.closed_wellFormed.type (Argument.closed_wellFormed.evaluate arg)

namespace Ty

theorem normal_form_is_invariant :
    (∀ ts : List Ty, (∀ t ∈ ts, t.WellFormed) → (union ts).WellFormed) ∧
    (∀ fs : List (String × Ty), (∀ f ∈ fs, f.2.WellFormed) → (record fs).WellFormed) ∧
    (∀ t : Ty, t.WellFormed → t.widen.WellFormed ∧ t.stripUndefined.WellFormed) ∧
    (∀ (op : BinaryOp) (l r t : Ty), l.WellFormed → r.WellFormed → binary op l r = .ok t → t.WellFormed) ∧
    (∀ (op : CompareOp) (l r t : Ty), l.WellFormed → r.WellFormed → compare op l r = .ok t → t.WellFormed) ∧
    (∀ (op : UnaryOp) (t u : Ty), t.WellFormed → unary op t = .ok u → u.WellFormed) ∧
    (∀ (exact : Bool) (ts : List Ty) (t : Ty), (∀ u ∈ ts, u.WellFormed) → merge? exact ts = some t →
      t.WellFormed) ∧
    (∀ d : Datum, (ofDatum d).WellFormed) ∧
    (∀ (s : Concrete.Store) (v : Concrete.Value), (v.type s).WellFormed) ∧
    (∀ (d : Datum) (t : Ty), decode d = .ok t → t.WellFormed) ∧
    (∀ arg : ArgumentText, arg.evaluate.1.type.WellFormed) := by
  refine ⟨fun _ => wellFormed_union, fun _ => wellFormed_record, ?_, ?_, ?_, ?_, ?_, wellFormed_ofDatum,
    Concrete.Value.wellFormed_type, yields_decode, ArgumentText.wellFormed_evaluate⟩
  · exact fun t h => ⟨wellFormed_widen h, wellFormed_stripUndefined h⟩
  · exact fun op l r t hl hr => yields_binary op hl hr t
  · exact fun op l r t hl hr => yields_compare op hl hr t
  · exact fun op t u _ => yields_unary op t u
  · intro exact ts t wf ht
    rw [eq_mergedAs_of_merge? ht]
    exact wellFormed_mergedAs wf

theorem normal_form_is_invariant_of_alternatives :
    (union [bool true, .oneOf [bool false, text "a"], .never]).WellFormed ∧
    (record [("y", text "a"), ("x", int 1), ("y", .null)]).WellFormed ∧
    (widen (.oneOf [int 1, int 2])).WellFormed ∧
    (∃ t, binary .add (.oneOf [text "a", text "b"]) string = .ok t ∧ t.WellFormed) ∧
    (∃ t, compare .eq (.oneOf [text "a", text "b"]) (text "b") = .ok t ∧ t.WellFormed) ∧
    (∃ t, unary .neg (.oneOf [int 1, int 2]) = .ok t ∧ t.WellFormed) ∧
    (∃ t, merge? false [.object [("x", int 1)], .object [("y", text "a")]] = some t ∧ t.WellFormed) := by
  obtain ⟨hu, hr, hw, hb, hc, hn, hm, -⟩ := normal_form_is_invariant
  have add : binary .add (.oneOf [text "a", text "b"]) string = .ok string := by rfl
  have eq : compare .eq (.oneOf [text "a", text "b"]) (text "b") = .ok boolean := by rfl
  have neg : unary .neg (.oneOf [int 1, int 2]) = .ok (.oneOf [int (-1), int (-2)]) := by rfl
  have joined : merge? false [.object [("x", int 1)], .object [("y", text "a")]] =
      some (.object [("x", .oneOf [number, .undefined]), ("y", .oneOf [string, .undefined])]) := by rfl
  exact ⟨hu _ (by decide), hr _ (by decide), (hw _ (by decide)).1,
    ⟨_, add, hb _ _ _ _ (by decide) (by decide) add⟩, ⟨_, eq, hc _ _ _ _ (by decide) (by decide) eq⟩,
    ⟨_, neg, hn _ _ _ (by decide) neg⟩, ⟨_, joined, hm _ _ _ (by decide) joined⟩⟩

end Ty

end Casewise
