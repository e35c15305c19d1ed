import Casewise.Case.Execution
import Casewise.Proofs.Merged

namespace Casewise

theorem integerText?_isSome {n : Int} {k : Nat} (hk : k ≤ digitLimit) (h : n.natAbs < Nat.pow 10 k) :
    (integerText? n).isSome = true := by
  have hle : Nat.pow 10 k ≤ digitBound := by
    unfold digitBound
    generalize digitLimit = limit at hk
    exact Nat.pow_le_pow_right (by decide) hk
  rw [integerText?, if_pos (Nat.lt_of_lt_of_le h hle)]
  rfl

namespace Datum

theorem write?_int {n : Int} (h : n.natAbs < 1000) : (int n).write?.isSome = true := by
  simp only [int, Scalar.int, write?, writeWith, Scalar.text?]
  exact integerText?_isSome (k := 3) (by decide) h

variable {sp : Spelling}

theorem writeItems_isSome {ds : List Datum} :
    (writeItems sp ds).isSome = true ↔ ∀ d ∈ ds, (writeWith sp d).isSome = true := by
  induction ds with
  | nil => simp [writeItems]
  | cons d ds ih =>
    rw [List.forall_mem_cons, ← ih, writeItems]
    cases writeWith sp d <;> cases writeItems sp ds <;> simp

theorem writeFields_isSome {fs : List (String × Datum)} :
    (writeFields sp fs).isSome = true ↔ ∀ f ∈ fs, (writeWith sp f.2).isSome = true := by
  induction fs with
  | nil => simp [writeFields]
  | cons f fs ih =>
    rw [List.forall_mem_cons, ← ih, writeFields]
    cases writeWith sp f.2 <;> cases writeFields sp fs <;> simp

end Datum

namespace Ty

variable {t : Ty} {ts : List Ty}

theorem printable_of_name? (h : (name? t).isSome = true) : t.Printable := by
  induction t using induct with
  | literal s => simpa [Printable, every, hasText, name?] using h
  | oneOf ms ih =>
    have hn : (names? ms).isSome = true := by
      rw [name?] at h
      cases hm : names? ms with
      | none => simp [hm] at h
      | some _ => rfl
    exact every_iff.mpr ⟨rfl, fun m hm => ih m hm (names?_isSome.mp hn m hm)⟩
  | object fs ih =>
    have hn : (fieldNames? fs).isSome = true := by
      cases fs with
      | nil => rfl
      | cons f fs =>
        rw [name?] at h
        · cases hm : fieldNames? (f :: fs) with
          | none => simp [hm] at h
          | some _ => rfl
        · simp
    refine every_iff.mpr ⟨rfl, List.forall_mem_map.mpr fun f hf => ?_⟩
    exact ih f hf (fieldNames?_isSome.mp hn f hf)
  | array e ih =>
    have hn : (name? e).isSome = true := by
      rw [name?] at h
      cases hm : name? e with
      | none => simp [hm] at h
      | some _ => rfl
    exact every_iff.mpr ⟨rfl, List.forall_mem_singleton.mpr (ih hn)⟩
  | tuple es ih =>
    have hn : (names? es).isSome = true := by
      rw [name?] at h
      cases hm : names? es with
      | none => simp [hm] at h
      | some _ => rfl
    exact every_iff.mpr ⟨rfl, fun e he => ih e he (names?_isSome.mp hn e he)⟩
  | function ps r ihp ihr =>
    have hn : (names? ps).isSome = true ∧ (name? r).isSome = true := by
      rw [name?] at h
      cases hm : names? ps <;> cases hr : name? r <;> simp [hm, hr] at h ⊢
    refine every_iff.mpr ⟨rfl, List.forall_mem_cons.mpr ⟨ihr hn.2, fun p hp => ?_⟩⟩
    exact ihp p hp (names?_isSome.mp hn.1 p hp)
  | _ => rfl

theorem printable_iff : t.Printable ↔ (name? t).isSome = true := ⟨name?_isSome, printable_of_name?⟩

theorem union_of_parts {P : Ty → Prop} (part : ∀ t ∈ ts, ∀ m ∈ parts t, P m) (never : P .never) (boolean : P boolean)
    (oneOf : ∀ ms, (∀ m ∈ ms, P m) → P (.oneOf ms)) : P (union ts) := by
  have hflat {m : Ty} (hm : m ∈ distinctBy same (ts.flatMap parts)) : P m := by
    obtain ⟨t, ht, hmt⟩ := List.mem_flatMap.mp (mem_of_mem_distinctBy hm)
    exact part t ht m hmt
  rw [union_eq]
  split
  · next hu => exact hflat (any_isUnknown.mp hu)
  · have hkept : ∀ m ∈ normalized (distinctBy same (ts.flatMap parts)), P m := by
      intro m hm
      rcases mem_of_mem_normalized hm with hm | rfl
      · exact hflat hm
      · exact boolean
    generalize normalized (distinctBy same (ts.flatMap parts)) = ms at hkept
    match ms, hkept with
    | [], _ => exact never
    | [m], hkept => exact hkept m (by simp)
    | m :: n :: ms, hkept => exact oneOf _ hkept

theorem printable_union (h : ∀ t ∈ ts, t.Printable) : (union ts).Printable := by
  refine union_of_parts (fun t ht m hm => ?_) rfl rfl fun ms hms => every_iff.mpr ⟨rfl, hms⟩
  have ht := h t ht
  cases t with
  | oneOf ms => exact every_child ht hm
  | never => simp [parts] at hm
  | _ => exact List.mem_singleton.mp hm ▸ ht

theorem printable_object {fs : List (String × Ty)} : (object fs).Printable ↔ ∀ f ∈ fs, f.2.Printable := by
  simp [Printable, every, everyField_iff, hasText]

theorem printable_record {fs : List (String × Ty)} (h : ∀ f ∈ fs, f.2.Printable) : (record fs).Printable :=
  printable_object.mpr fun f hf => Bindings.forall_mem_update (p := Printable) fs (by simp) h f (mem_sortBy.mp hf)

theorem printable_widen (h : t.Printable) : (widen t).Printable := by
  induction t using induct with
  | oneOf ms ih =>
    rw [widen, widenAll_eq_map]
    exact printable_union (List.forall_mem_map.mpr fun m hm => ih m hm (every_child h hm))
  | object fs ih =>
    rw [widen, widenFields_eq_map, printable_object, List.forall_mem_map]
    exact fun f hf => ih f hf (printable_object.mp h f hf)
  | array e ih => exact every_iff.mpr ⟨rfl, List.forall_mem_singleton.mpr (ih (every_child h (by simp [children])))⟩
  | tuple es ih =>
    rw [widen, widenAll_eq_map]
    exact every_iff.mpr ⟨rfl, List.forall_mem_map.mpr fun e he => ih e he (every_child h he)⟩
  | literal s => rfl
  | _ => exact h

mutual

theorem printable_ofDatum : ∀ d : Datum, d.write?.isSome = true → (ofDatum d).Printable
  | .null, _ => rfl
  | .scalar _, h => h
  | .list items, h => by
    rw [Datum.write?, Datum.writeWith, Option.isSome_map] at h
    have hitems := printable_ofItems items (Datum.writeItems_isSome.mp h)
    exact every_iff.mpr ⟨rfl, List.forall_mem_singleton.mpr (printable_union hitems)⟩
  | .record fields, h => by
    rw [Datum.write?, Datum.writeWith, Option.isSome_map] at h
    exact printable_record (printable_ofFields fields (Datum.writeFields_isSome.mp h))

theorem printable_ofItems : ∀ ds : List Datum, (∀ d ∈ ds, d.write?.isSome = true) → ∀ t ∈ ofItems ds, t.Printable
  | [], _ => by simp [ofItems]
  | d :: ds, h => by
    obtain ⟨hd, hrest⟩ := List.forall_mem_cons.mp h
    exact List.forall_mem_cons.mpr ⟨printable_ofDatum d hd, printable_ofItems ds hrest⟩

theorem printable_ofFields : ∀ fs : List (String × Datum), (∀ f ∈ fs, f.2.write?.isSome = true) →
    ∀ f ∈ ofFields fs, f.2.Printable
  | [], _ => by simp [ofFields]
  | (_, d) :: fs, h => by
    obtain ⟨hd, hrest⟩ := List.forall_mem_cons.mp h
    exact List.forall_mem_cons.mpr ⟨printable_ofDatum d hd, printable_ofFields fs hrest⟩

end

def Sampled {α : Type} (x : Except SampleError α) (P : α → Prop) : Prop :=
  (∃ a, x = .ok a ∧ P a) ∨ ∃ n, x = .error (.unsampleable n)

section

variable {α β : Type} {P : α → Prop} {Q : β → Prop}

theorem sampled_ok {a : α} (h : P a) : Sampled (.ok a) P := .inl ⟨a, rfl, h⟩

theorem Sampled.bind {x : Except SampleError α} {f : α → Except SampleError β} (hx : Sampled x P)
    (hf : ∀ a, P a → Sampled (f a) Q) : Sampled (x >>= f) Q := by
  obtain ⟨a, rfl, ha⟩ | ⟨n, rfl⟩ := hx
  · exact hf a ha
  · exact .inr ⟨n, rfl⟩

theorem Sampled.mapM {f : α → Except SampleError β} {xs : List α} (h : ∀ x ∈ xs, Sampled (f x) Q) :
    Sampled (xs.mapM f) fun bs => ∀ b ∈ bs, Q b := by
  induction xs with
  | nil => exact sampled_ok (by simp)
  | cons x xs ih =>
    obtain ⟨hx, hrest⟩ := List.forall_mem_cons.mp h
    rw [List.mapM_cons]
    exact hx.bind fun b hb => (ih hrest).bind fun bs hbs => sampled_ok (List.forall_mem_cons.mpr ⟨hb, hbs⟩)

end

theorem representatives_eq_map (ts : List Ty) : representatives ts = ts.map representative := by
  induction ts with
  | nil => rfl
  | cons t ts ih => simp [representatives, ih]

theorem sampled_unsampleable {P : Datum → Prop} (h : t.Printable) : Sampled (unsampleable t) P := by
  obtain ⟨n, hn⟩ := Option.isSome_iff_exists.mp (name?_isSome h)
  rw [unsampleable, hn]
  exact .inr ⟨n, rfl⟩

theorem sampled_inNameOrder {α : Type} {P : α → Prop} {results : List (Except SampleError α)}
    (h : ∀ t ∈ ts, t.Printable) (hr : ∀ r ∈ results, Sampled r P) :
    Sampled (inNameOrder ts results) fun as => ∀ a ∈ as, P a := by
  obtain ⟨ns, hns⟩ := Option.isSome_iff_exists.mp (names?_isSome.mpr fun t ht => name?_isSome (h t ht))
  rw [inNameOrder, hns]
  refine Sampled.mapM fun r hmem => hr r ?_
  obtain ⟨⟨n, r⟩, hzip, rfl⟩ := List.mem_map.mp hmem
  exact (List.of_mem_zip (mem_sortBy.mp hzip)).2

theorem sampled_representatives {P : Datum → Prop} (ih : ∀ t ∈ ts, t.Printable → Sampled (representative t) P)
    (h : ∀ t ∈ ts, t.Printable) : ∀ r ∈ representatives ts, Sampled r P := by
  rw [representatives_eq_map]
  exact List.forall_mem_map.mpr fun t ht => ih t ht (h t ht)

theorem sampled_representFields {fs : List (String × Ty)} {P : Datum → Prop}
    (h : ∀ f ∈ fs, Sampled (representative f.2) P) : Sampled (representFields fs) fun ds => ∀ d ∈ ds, P d.2 := by
  induction fs with
  | nil => exact sampled_ok (by simp)
  | cons f fs ih =>
    obtain ⟨hf, hrest⟩ := List.forall_mem_cons.mp h
    rw [representFields]
    split
    · exact ih hrest
    · exact hf.bind fun d hd => (ih hrest).bind fun ds hds => sampled_ok (List.forall_mem_cons.mpr ⟨hd, hds⟩)

theorem sampled_representative (h : t.Printable) : Sampled (representative t) fun d => d.write?.isSome = true := by
  induction t using induct with
  | primitive p =>
    cases p with
    | number => exact sampled_ok (Datum.write?_int (by decide))
    | _ => exact sampled_ok rfl
  | literal s => exact sampled_ok h
  | oneOf ms ih =>
    rw [representative]
    have hms := sampled_representatives ih fun m hm => every_child h hm
    refine (sampled_inNameOrder (fun m hm => every_child h hm) hms).bind fun ds hds => sampled_ok ?_
    cases ds with
    | nil => rfl
    | cons d ds => exact hds d (by simp)
  | object fs ih =>
    rw [representative]
    have hfs := sampled_representFields fun f hf => ih f hf (printable_object.mp h f hf)
    refine hfs.bind fun ds hds => sampled_ok ?_
    rw [Datum.write?, Datum.writeWith, Option.isSome_map, Datum.writeFields_isSome]
    exact hds
  | array e ih =>
    have he := ih (every_child h (by simp [children]))
    cases e with
    | never => exact sampled_ok rfl
    | _ =>
      rw [representative]
      · refine he.bind fun d hd => sampled_ok ?_
        rw [Datum.write?, Datum.writeWith, Option.isSome_map, Datum.writeItems_isSome]
        exact List.forall_mem_singleton.mpr hd
      · simp
  | tuple es ih =>
    rw [representative]
    have hes := sampled_representatives ih fun e he => every_child h he
    refine (Sampled.mapM (f := id) hes).bind fun ds hds => sampled_ok ?_
    rw [Datum.write?, Datum.writeWith, Option.isSome_map, Datum.writeItems_isSome]
    exact hds
  | unknown => exact sampled_ok rfl
  | function ps r _ _ => exact sampled_unsampleable h
  | never => exact sampled_unsampleable h
  | throws e => exact sampled_unsampleable h

end Ty

namespace CaseValue

variable {v : CaseValue}

theorem printable_type (h : v.text?.isSome = true) : v.type.Printable := by
  cases v with
  | concrete d => exact Ty.printable_ofDatum d h
  | symbolic t => exact Ty.printable_of_name? h

end CaseValue

theorem Mock.payload_isOk {m : Mock} (h : m.substitute.text?.isSome = true) : ∃ p, m.payload = .ok p := by
  have hsample {t : Ty} (ht : t.Printable) (callable : Bool) : ∃ p, sampleOr m.symbol callable t = .ok p := by
    unfold sampleOr
    obtain ⟨d, hd, _⟩ | ⟨n, hn⟩ := Ty.sampled_representative ht
    · exact ⟨_, by rw [hd]⟩
    · exact ⟨_, by rw [hn]⟩
  unfold payload
  split
  · exact ⟨_, rfl⟩
  · next ps r hv =>
    have ht := CaseValue.printable_type h
    rw [hv] at ht
    exact hsample (Ty.every_child (c := r) ht (List.mem_cons_self ..)) true
  · next t _ hv =>
    have ht := CaseValue.printable_type h
    rw [hv] at ht
    exact hsample ht false

end Casewise
