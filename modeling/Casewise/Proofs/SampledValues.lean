import Casewise.Proofs.PlannedCases

namespace Casewise

namespace Ty

variable {t : Ty} {ms : List Ty} {fs : List (String × Ty)} {count : Int}

def required (fs : List (String × Ty)) : List (String × Ty) := fs.filter fun f => !f.2.isOptional

inductive Conforms : Ty → Datum → Prop
  | literal (s : Scalar) : Conforms (.literal s) (.scalar s)
  | number (n : Number) : Conforms number (.scalar (.number n))
  | string (s : String) : Conforms string (.text s)
  | boolean (b : Bool) : Conforms boolean (.bool b)
  | null : Conforms null .null
  | undefined : Conforms undefined .null
  | unknown : Conforms .unknown .null
  | oneOf {ms : List Ty} {m : Ty} {d : Datum} (hm : m ∈ ms) (h : Conforms m d) : Conforms (.oneOf ms) d
  | array {e : Ty} {ds : List Datum} (h : ∀ d ∈ ds, Conforms e d) : Conforms (.array e) (.list ds)
  | tuple {es : List Ty} {ds : List Datum} (h : List.Forall₂ Conforms es ds) : Conforms (.tuple es) (.list ds)
  | object {fs : List (String × Ty)} {ds : List (String × Datum)}
    (hn : (required fs).map (·.1) = ds.map (·.1))
    (h : List.Forall₂ Conforms ((required fs).map (·.2)) (ds.map (·.2))) : Conforms (.object fs) (.record ds)

inductive Unsampleable : Ty → Prop
  | function (ps : List Ty) (r : Ty) : Unsampleable (.function ps r)
  | never : Unsampleable .never
  | throws (e : Option String) : Unsampleable (.throws e)
  | oneOf {ms : List Ty} {m : Ty} (hm : m ∈ ms) (h : Unsampleable m) : Unsampleable (.oneOf ms)
  | array {e : Ty} (hn : e ≠ .never) (h : Unsampleable e) : Unsampleable (.array e)
  | tuple {es : List Ty} {e : Ty} (he : e ∈ es) (h : Unsampleable e) : Unsampleable (.tuple es)
  | object {fs : List (String × Ty)} {f : String × Ty} (hf : f ∈ required fs)
    (h : Unsampleable f.2) : Unsampleable (.object fs)

theorem unsampleable_oneOf : (oneOf ms).Unsampleable ↔ ∃ m ∈ ms, m.Unsampleable where
  mp h := by cases h with | oneOf hm h => exact ⟨_, hm, h⟩
  mpr := by rintro ⟨m, hm, h⟩; exact .oneOf hm h

theorem unsampleable_array : (array t).Unsampleable ↔ t ≠ .never ∧ t.Unsampleable where
  mp h := by cases h with | array hn h => exact ⟨hn, h⟩
  mpr h := .array h.1 h.2

theorem unsampleable_tuple : (tuple ms).Unsampleable ↔ ∃ m ∈ ms, m.Unsampleable where
  mp h := by cases h with | tuple hm h => exact ⟨_, hm, h⟩
  mpr := by rintro ⟨m, hm, h⟩; exact .tuple hm h

theorem unsampleable_object : (object fs).Unsampleable ↔ ∃ f ∈ required fs, f.2.Unsampleable where
  mp h := by cases h with | object hf h => exact ⟨_, hf, h⟩
  mpr := by rintro ⟨f, hf, h⟩; exact .object hf h

def Draws {α : Type} (x : Except SampleError α) (U L : Prop) (P : α → Prop) : Prop :=
  (∃ a, x = .ok a ∧ ¬ U ∧ P a) ∨ ((∃ n, x = .error (.unsampleable n)) ∧ U) ∨ (x = .error .tooLong ∧ L)

namespace Draws

variable {α β : Type} {x : Except SampleError α} {U U' L L' : Prop} {P : α → Prop}

theorem of_ok {a : α} (hU : ¬ U) (ha : P a) : Draws (.ok a) U L P := .inl ⟨a, rfl, hU, ha⟩

theorem map {Q : β → Prop} (h : Draws x U L P) (hU : U ↔ U') (hL : L → L') (f : α → β) (hf : ∀ a, P a → Q (f a)) :
    Draws (do return f (← x)) U' L' Q := by
  obtain ⟨a, rfl, hu, ha⟩ | ⟨⟨n, rfl⟩, hu⟩ | ⟨rfl, hl⟩ := h
  · exact .inl ⟨f a, rfl, hU.not.mp hu, hf a ha⟩
  · exact .inr (.inl ⟨⟨n, rfl⟩, hU.mp hu⟩)
  · exact .inr (.inr ⟨rfl, hL hl⟩)

theorem mapM {f : α → Except SampleError β} {as : List α} {V W : α → Prop} {R : α → β → Prop}
    (h : ∀ a ∈ as, Draws (f a) (V a) (W a) (R a)) :
    Draws (as.mapM f) (∃ a ∈ as, V a) (∃ a ∈ as, W a) (List.Forall₂ R as) := by
  cases hm : as.mapM f with
  | ok bs =>
    have hall : List.Forall₂ (fun a b => ¬ V a ∧ R a b) as bs := by
      apply forall₂_imp_mem (mapM_eq_ok.mp hm)
      intro a ha b hb
      obtain ⟨b', hb', hv⟩ | ⟨⟨n, hn⟩, _⟩ | ⟨hn, _⟩ := h a ha
      · cases hb.symm.trans hb'
        exact hv
      · cases hb.symm.trans hn
      · cases hb.symm.trans hn
    refine .inl ⟨bs, rfl, ?_, hall.imp fun _ _ hv => hv.2⟩
    rintro ⟨a, ha, hv⟩
    obtain ⟨b, _, hnot, _⟩ := forall₂_partner hall.flip ha
    exact hnot hv
  | error e =>
    obtain ⟨a, ha, he⟩ := exists_of_mapM_error hm
    obtain ⟨b, hb, _⟩ | ⟨⟨n, hn⟩, hv⟩ | ⟨hn, hw⟩ := h a ha
    · cases he.symm.trans hb
    · cases he.symm.trans hn
      exact .inr (.inl ⟨⟨n, rfl⟩, a, ha, hv⟩)
    · cases he.symm.trans hn
      exact .inr (.inr ⟨rfl, a, ha, hw⟩)

end Draws

theorem draws_unsampleable (h : t.Unsampleable) {P : Datum → Prop} :
    Draws (unsampleable t) t.Unsampleable (¬ t.Printable) P := by
  unfold unsampleable
  cases hn : t.name? with
  | some n => exact .inr (.inl ⟨⟨n, rfl⟩, h⟩)
  | none => exact .inr (.inr ⟨rfl, by simp [printable_iff, hn]⟩)

theorem inNameOrder_map {α : Type} (f : Ty → Except SampleError α) {ns : List String} (h : names? ms = some ns) :
    ∃ ms' : List Ty, ms'.Perm ms ∧ inNameOrder ms (ms.map f) = ms'.mapM f := by
  refine ⟨(sortBy (fun a b => textLe a.1 b.1) (ns.zip ms)).map (·.2), ?_, ?_⟩
  · have hperm := (sortBy_perm (fun a b => textLe a.1 b.1) (ns.zip ms)).map (·.2)
    rwa [List.map_snd_zip (names?_length h).ge] at hperm
  · have hsort : (sortBy (fun a b => textLe a.1 b.1) (ns.zip ms)).map (Prod.map id f) =
        sortBy (fun a b => textLe a.1 b.1) ((ns.zip ms).map (Prod.map id f)) := map_sortBy _ _ fun _ _ => rfl
    rw [inNameOrder, h]
    dsimp only
    rw [List.zip_map_right, ← hsort, List.map_map, List.mapM_map, List.mapM_map]
    rfl

theorem draws_inNameOrder
    (h : ∀ m ∈ ms, Draws (representative m) m.Unsampleable (¬ m.Printable) m.Conforms) :
    Draws (inNameOrder ms (representatives ms)) (∃ m ∈ ms, m.Unsampleable) (∃ m ∈ ms, ¬ m.Printable)
      fun ds => ds.length = ms.length ∧ ∀ d ∈ ds, ∃ m ∈ ms, m.Conforms d := by
  rw [representatives_eq_map]
  cases hn : names? ms with
  | none =>
    refine .inr (.inr ⟨by rw [inNameOrder, hn], ?_⟩)
    by_contra hall
    have hsome := names?_isSome.mpr fun m hm => name?_isSome (by_contra fun hp => hall ⟨m, hm, hp⟩)
    simp [hn] at hsome
  | some ns =>
    obtain ⟨ms', hperm, he⟩ := inNameOrder_map representative hn
    have hdraws := Draws.mapM fun m hm => h m (hperm.subset hm)
    rw [he]
    simp only [hperm.mem_iff] at hdraws
    obtain ⟨ds, hds, hu, hall⟩ | herror := hdraws
    · refine .inl ⟨ds, hds, hu, hall.length_eq.symm.trans hperm.length_eq, fun d hd => ?_⟩
      obtain ⟨m, hm, hmd⟩ := forall₂_partner hall hd
      exact ⟨m, hperm.subset hm, hmd⟩
    · exact .inr herror

theorem representFields_eq (fs : List (String × Ty)) :
    representFields fs = (required fs).mapM fun f => do return (f.1, ← representative f.2) := by
  induction fs with
  | nil => rfl
  | cons f fs ih =>
    rw [representFields]
    split
    · next ho => rw [ih, required, required, List.filter_cons_of_neg (by simp [ho])]
    · next ho =>
      rw [ih, required, required, List.filter_cons_of_pos (by simp [ho]), List.mapM_cons]
      simp

theorem draws_representative (h : t.WellFormed) :
    Draws (representative t) t.Unsampleable (¬ t.Printable) t.Conforms := by
  have hchild {t c : Ty} (hc : c ∈ t.children) : ¬ c.Printable → ¬ t.Printable := mt fun ht => every_child ht hc
  induction t using induct with
  | primitive p =>
    have hp : ¬ (Ty.primitive p).Unsampleable := by rintro ⟨⟩
    cases p with
    | number => exact .of_ok hp (.number _)
    | string => exact .of_ok hp (.string _)
    | boolean => exact .of_ok hp (.boolean _)
    | null => exact .of_ok hp .null
    | undefined => exact .of_ok hp .undefined
  | literal s => exact .of_ok (by rintro ⟨⟩) (.literal s)
  | oneOf ms ih =>
    have hms := draws_inNameOrder fun m hm => ih m hm (every_child h hm)
    have htwo := (wellFormed_oneOf.mp h).1.1
    rw [representative]
    apply hms.map unsampleable_oneOf.symm
    · rintro ⟨m, hm, hp⟩
      exact hchild hm hp
    · rintro ds ⟨hlength, hall⟩
      obtain ⟨d, ds, rfl⟩ := List.exists_cons_of_length_pos (show 0 < ds.length by omega)
      obtain ⟨m, hm, hd⟩ := hall d (by simp)
      exact .oneOf hm hd
  | object fs ih =>
    have hfs := Draws.mapM fun f (hf : f ∈ required fs) =>
      have hmem := List.mem_of_mem_filter hf
      (ih f hmem ((wellFormed_object.mp h).2 f hmem)).map .rfl id (fun d => (f.1, d))
        (Q := fun d => f.1 = d.1 ∧ f.2.Conforms d.2) fun d hd => ⟨rfl, hd⟩
    rw [representative, representFields_eq]
    apply hfs.map unsampleable_object.symm
    · rintro ⟨f, hf, hp⟩
      exact hchild (List.mem_map_of_mem (List.mem_of_mem_filter hf)) hp
    · intro ds hds
      apply Conforms.object
      · rw [← List.forall₂_eq_eq_eq, List.forall₂_map_left_iff, List.forall₂_map_right_iff]
        exact hds.imp fun _ _ hd => hd.1
      · rw [List.forall₂_map_left_iff, List.forall₂_map_right_iff]
        exact hds.imp fun _ _ hd => hd.2
  | array e ih =>
    by_cases he : e = .never
    · subst he
      exact .of_ok (fun hu => (unsampleable_array.mp hu).1 rfl) (.array (by simp))
    · rw [representative]
      · apply (ih (wellFormed_array.mp h)).map
        · rw [unsampleable_array, and_iff_right he]
        · exact hchild (by simp [children])
        · exact fun d hd => .array (List.forall_mem_singleton.mpr hd)
      · exact he
  | tuple es ih =>
    have hes := Draws.mapM fun e he => ih e he (every_child h he)
    rw [representative, representatives_eq_map, List.mapM_map]
    apply hes.map unsampleable_tuple.symm
    · rintro ⟨e, he, hp⟩
      exact hchild he hp
    · exact fun ds hds => .tuple hds
  | unknown => exact .of_ok (by rintro ⟨⟩) .unknown
  | function ps r _ _ => exact draws_unsampleable (.function ps r)
  | never => exact draws_unsampleable .never
  | throws e => exact draws_unsampleable (.throws e)

theorem draws_samples (h : t.WellFormed) (count : Int) :
    Draws (t.samples count) t.Unsampleable (¬ t.Printable) fun ds => ∀ d ∈ ds, t.Conforms d := by
  have hone : Draws (do return [← representative t]) t.Unsampleable (¬ t.Printable) fun ds => ∀ d ∈ ds, t.Conforms d :=
    (draws_representative h).map .rfl id (fun d => [d]) fun d hd => List.forall_mem_singleton.mpr hd
  have htaken {ds : List Datum} (hds : ∀ d ∈ ds, t.Conforms d) (n : Nat) : ∀ d ∈ ds.take n, t.Conforms d :=
    fun d hd => hds d (List.mem_of_mem_take hd)
  cases t with
  | primitive p =>
    have hp : ¬ (Ty.primitive p).Unsampleable := by rintro ⟨⟩
    cases p with
    | number =>
      refine .of_ok hp (htaken ?_ _)
      simp only [numberSamples, List.forall_mem_cons]
      exact ⟨.number _, .number _, .number _, .number _, .number _, .number _, .number _, by simp⟩
    | string =>
      refine .of_ok hp (List.forall_mem_append.mpr ⟨htaken ?_ _, List.forall_mem_map.mpr fun _ _ => .string _⟩)
      simp only [stringSamples, List.forall_mem_cons]
      exact ⟨.string _, .string _, .string _, .string _, .string _, by simp⟩
    | boolean =>
      refine .of_ok hp (htaken ?_ _)
      simp only [booleanSamples, List.forall_mem_cons]
      exact ⟨.boolean _, .boolean _, by simp⟩
    | _ => exact hone
  | oneOf ms =>
    have hms := draws_inNameOrder fun m hm => draws_representative (every_child h hm)
    rw [← unsampleable_oneOf] at hms
    obtain ⟨ds, hds, hu, _, hall⟩ | hfails | ⟨hlong, m, hm, hp⟩ := hms
    · refine .inl ⟨ds, hds, hu, fun d hd => ?_⟩
      obtain ⟨m, hm, hmd⟩ := hall d hd
      exact .oneOf hm hmd
    · exact .inr (.inl hfails)
    · exact .inr (.inr ⟨hlong, fun ht => hp (every_child ht hm)⟩)
  | _ => exact hone

end Ty

namespace Sampling

variable {α β : Type} {pools : List (List α)} {pool : List α} {limit : Nat}

def combinations : List (List α) → Nat
  | [] => 1
  | pool :: pools => pool.length * combinations pools

/-- The first rows of the cross product, in order: the last place runs through its pool, then the place before it goes
on, so the entry of a place is found by the number of ways to fill the places after it. -/
structure FirstRows (limit : Nat) (pools rows : List (List α)) : Prop where
  length : rows.length = min limit (combinations pools)
  width : ∀ row ∈ rows, row.length = pools.length
  entry : ∀ i row k pool, rows[i]? = some row → pools[k]? = some pool →
    row[k]? = pool[i / combinations (pools.drop (k + 1)) % pool.length]?

theorem combinations_place {k : Nat} (h : pools[k]? = some pool) :
    ∃ q, combinations pools = combinations (pools.drop (k + 1)) * (pool.length * q) := by
  induction pools generalizing k with
  | nil => simp at h
  | cons head pools ih =>
    cases k with
    | zero =>
      obtain rfl : head = pool := by simpa using h
      exact ⟨1, by simp [combinations, Nat.mul_comm]⟩
    | succ k =>
      obtain ⟨q, hq⟩ := ih (by simpa using h)
      refine ⟨q * head.length, ?_⟩
      rw [combinations, hq, List.drop_succ_cons, Nat.mul_comm head.length, Nat.mul_assoc, Nat.mul_assoc]

theorem getElem?_flatMap {f : α → List β} {m : Nat} (hm : 0 < m) (h : ∀ a, (f a).length = m) (as : List α) (i : Nat) :
    (as.flatMap f)[i]? = as[i / m]?.bind fun a => (f a)[i % m]? := by
  induction as generalizing i with
  | nil => simp
  | cons a as ih =>
    rw [List.flatMap_cons]
    by_cases hi : i < m
    · rw [List.getElem?_append_left (by rw [h]; exact hi), Nat.div_eq_of_lt hi, Nat.mod_eq_of_lt hi]
      rfl
    · obtain ⟨j, rfl⟩ := Nat.exists_eq_add_of_le (Nat.le_of_not_lt hi)
      rw [List.getElem?_append_right (by rw [h]; omega), h, Nat.add_sub_cancel_left, ih, Nat.add_div_left j hm,
        Nat.add_mod_left, List.getElem?_cons_succ]

theorem length_blocks (pool : List α) (tails : List (List α)) :
    (pool.flatMap fun a => tails.map (a :: ·)).length = pool.length * tails.length := by
  induction pool with
  | nil => simp
  | cons a pool ih => rw [List.flatMap_cons, List.length_append, ih, List.length_map, List.length_cons, Nat.succ_mul,
      Nat.add_comm]

theorem div_mod_min {i limit : Nat} (h : i < limit) (n : Nat) : i / min limit n = i / n ∧ i % min limit n = i % n := by
  rcases Nat.le_total n limit with hn | hn
  · rw [Nat.min_eq_right hn]
    exact ⟨rfl, rfl⟩
  · rw [Nat.min_eq_left hn, Nat.div_eq_of_lt h, Nat.mod_eq_of_lt h, Nat.div_eq_of_lt (by omega),
      Nat.mod_eq_of_lt (by omega)]
    exact ⟨rfl, rfl⟩

theorem min_mul_min (limit m n : Nat) : min limit (m * min limit n) = min limit (m * n) := by
  rcases Nat.le_total n limit with hn | hn
  · rw [Nat.min_eq_right hn]
  · rcases Nat.eq_zero_or_pos m with rfl | hm
    · simp
    · have hlimit := Nat.le_mul_of_pos_left limit hm
      have hmul := Nat.mul_le_mul_left m hn
      rw [Nat.min_eq_left hn]
      omega

theorem FirstRows.cons {tails : List (List α)} (h : FirstRows limit pools tails) (pool : List α) :
    FirstRows limit (pool :: pools) ((pool.flatMap fun a => tails.map (a :: ·)).take limit) where
  length := by
    rw [List.length_take, length_blocks, h.length, min_mul_min]
    rfl
  width row hrow := by
    obtain ⟨a, _, hmem⟩ := List.mem_flatMap.mp (List.mem_of_mem_take hrow)
    obtain ⟨tail, htail, rfl⟩ := List.mem_map.mp hmem
    rw [List.length_cons, h.width tail htail, List.length_cons]
  entry i row k own hrow hown := by
    have hi : i < limit := by
      have hlength := (List.getElem?_eq_some_iff.mp hrow).1
      rw [List.length_take] at hlength
      omega
    rw [List.getElem?_take_of_lt hi] at hrow
    have hsome : 0 < tails.length := by
      obtain ⟨a, _, hmem⟩ := List.mem_flatMap.mp (List.mem_of_getElem? hrow)
      obtain ⟨tail, htail, _⟩ := List.mem_map.mp hmem
      exact List.length_pos_of_mem htail
    obtain ⟨hdiv, hmod⟩ := div_mod_min hi (combinations pools)
    rw [getElem?_flatMap hsome (fun a => List.length_map _), h.length, hdiv, hmod] at hrow
    obtain ⟨a, ha, hrow⟩ := Option.bind_eq_some_iff.mp hrow
    rw [List.getElem?_map] at hrow
    obtain ⟨tail, htail, rfl⟩ := Option.map_eq_some_iff.mp hrow
    cases k with
    | zero =>
      obtain rfl : pool = own := by simpa using hown
      have hbound := (List.getElem?_eq_some_iff.mp ha).1
      rw [List.getElem?_cons_zero, List.drop_succ_cons, List.drop_zero, Nat.mod_eq_of_lt hbound, ha]
    | succ k =>
      rw [List.getElem?_cons_succ] at hown
      obtain ⟨q, hq⟩ := combinations_place hown
      rw [List.getElem?_cons_succ, h.entry _ tail k own htail hown, hq, Nat.mod_mul_right_div_self,
        Nat.mod_mul_right_mod, List.drop_succ_cons]

theorem firstRows_rows (limit : Nat) (pools : List (List α)) : FirstRows limit pools (rows limit pools) := by
  induction pools with
  | nil =>
    refine ⟨by simp [rows, combinations], fun row hrow => ?_, by simp⟩
    rw [List.mem_singleton.mp (List.mem_of_mem_take hrow)]
    rfl
  | cons pool pools ih => exact ih.cons pool

end Sampling

/-- A type in normal form has samples, which are values of it, or it has none; or a type is met that cannot be named. If
each value has a pool of samples, the rows are the first ones of the cross product, if no more of them are asked for than
can be counted, and if more are asked for there are none. -/
theorem samples_conform (t : Ty) (h : t.WellFormed) (count : Int) :
    ((∃ ds, t.samples count = .ok ds ∧ ¬ t.Unsampleable ∧ ds ≠ [] ∧ ∀ d ∈ ds, t.Conforms d) ∨
      ((∃ n, t.samples count = .error (.unsampleable n)) ∧ t.Unsampleable) ∨
      (t.samples count = .error .tooLong ∧ ¬ t.Printable)) ∧
    ∀ (values : List CaseValue) (pools : List (List Datum)) (limit : Int), 0 ≤ limit →
      List.Forall₂ (fun v pool => Sampling.pool count v = .ok pool) values pools →
      (limit ≤ Sampling.rowLimit → ∃ rows, Sampling.expand values count limit = .ok rows ∧
        Sampling.FirstRows limit.toNat pools rows) ∧
      (Sampling.rowLimit < limit → Sampling.expand values count limit = .error .badLimit) := by
  constructor
  · obtain ⟨ds, hds, hu, hall⟩ | hfails := Ty.draws_samples h count
    · exact .inl ⟨ds, hds, hu, Ty.samples_ne_nil h hds, hall⟩
    · exact .inr hfails
  · intro values pools limit hlimit hpools
    have hexpand : Sampling.expand values count limit =
        if limit < 0 ∨ Sampling.rowLimit < limit then .error .badLimit else .ok (Sampling.rows limit.toNat pools) := by
      rw [Sampling.expand, mapM_eq_ok.mpr hpools]
      rfl
    constructor
    · intro hin
      refine ⟨_, ?_, Sampling.firstRows_rows limit.toNat pools⟩
      rw [hexpand, if_neg (by omega)]
    · intro hout
      rw [hexpand, if_pos (.inr hout)]

theorem truths_conform :
    (∃ rows, Sampling.expand [.symbolic Ty.boolean] 3 Sampling.rowLimit = .ok rows ∧
      Sampling.FirstRows Sampling.rowLimit.toNat [[.bool true, .bool false]] rows) ∧
    Sampling.expand [.symbolic Ty.boolean] 3 (Sampling.rowLimit + 1) = .error .badLimit := by
  have hexpand (limit : Int) (h : 0 ≤ limit) :=
    (samples_conform Ty.boolean (by decide) 3).2 [.symbolic Ty.boolean] [[.bool true, .bool false]] limit h
      (.cons rfl .nil)
  exact ⟨(hexpand _ (by decide)).1 (le_refl _), (hexpand _ (by decide)).2 (by decide)⟩

end Casewise
