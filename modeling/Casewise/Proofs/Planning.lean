import Casewise.Proofs.ArgumentValues
import Casewise.Proofs.Writing

namespace Casewise

namespace Numeral

theorem decimalValue?_lt {c : Char} {n : Nat} (h : Text.decimalValue? c = some n) : n < 10 := by
  unfold Text.decimalValue? at h
  split at h
  · split at h
    · next hd =>
      obtain rfl := Option.some.inj h
      simp only [Char.isDigit, Bool.and_eq_true, decide_eq_true_eq] at hd
      have h9 : c.toNat ≤ 57 := hd.2
      have h0 : '0'.toNat = 48 := rfl
      omega
    · cases h
  · obtain ⟨z, hz, rfl⟩ := Option.map_eq_some_iff.mp h
    have hbounds := Array.find?_some hz
    simp only [Bool.and_eq_true, decide_eq_true_eq] at hbounds
    omega

theorem digits?_lt {cs : List Char} {n : Nat} (h : digits? cs = some n) : n < Nat.pow 10 cs.length := by
  have hfold (start : Nat) : cs.foldlM (fun n c => (Text.decimalValue? c).map (n * 10 + ·)) start = some n →
      n < (start + 1) * Nat.pow 10 cs.length := by
    clear h
    induction cs generalizing start with
    | nil =>
      intro h
      obtain rfl := Option.some.inj h
      simp
    | cons c cs ih =>
      intro h
      rw [List.foldlM_cons] at h
      obtain ⟨m, hm, hrest⟩ := Option.bind_eq_some_iff.mp h
      obtain ⟨d, hd, rfl⟩ := Option.map_eq_some_iff.mp hm
      have hlt := decimalValue?_lt hd
      calc n < (start * 10 + d + 1) * Nat.pow 10 cs.length := ih _ hrest
        _ ≤ (start + 1) * 10 * Nat.pow 10 cs.length := Nat.mul_le_mul_right _ (by omega)
        _ = (start + 1) * Nat.pow 10 (cs.length + 1) := by
          rw [Nat.mul_assoc, Nat.mul_comm 10]
          rfl
  simpa using hfold 0 h

theorem text?_of_number? {cs : List Char} {n : Number} (h : number? cs = some n) :
    (Scalar.number n).text?.isSome = true ∧ (Scalar.number n.negate).text?.isSome = true := by
  unfold number? at h
  split at h
  · obtain ⟨x, _, rfl⟩ := Option.map_eq_some_iff.mp h
    exact ⟨rfl, rfl⟩
  · obtain ⟨m, hm, rfl⟩ := Option.map_eq_some_iff.mp h
    unfold integer? at hm
    split at hm
    · cases hm
    · next hlen =>
      obtain ⟨k, hk, rfl⟩ := Option.map_eq_some_iff.mp hm
      have hle : cs.length ≤ digitLimit := by
        simp only [Bool.or_eq_true, decide_eq_true_eq, not_or] at hlen
        exact Nat.not_lt.mp hlen.2
      have hlt := digits?_lt hk
      simp only [Number.negate, Scalar.text?]
      exact ⟨integerText?_isSome hle (by simpa using hlt), integerText?_isSome hle (by simpa using hlt)⟩

end Numeral

theorem Argument.closed_writable : Closed (·.write?.isSome = true) Ty.Printable where
  ofDatum {d} h := Ty.printable_ofDatum d h
  null := rfl
  number h := Numeral.text?_of_number? h
  text _ := rfl
  bool _ := rfl
  list h := by
    rw [Datum.write?, Datum.writeWith, Option.isSome_map, Datum.writeItems_isSome]
    exact h
  record h := by
    rw [Datum.write?, Datum.writeWith, Option.isSome_map, Datum.writeFields_isSome]
    exact h
  primitive _ := rfl
  unknown := rfl
  never := rfl
  throws _ := rfl
  union := Ty.printable_union
  object := Ty.printable_record
  array h := Ty.every_iff.mpr ⟨rfl, List.forall_mem_singleton.mpr h⟩
  tuple h := Ty.every_iff.mpr ⟨rfl, h⟩
  function hr hps := Ty.every_iff.mpr ⟨rfl, List.forall_mem_cons.mpr ⟨hr, hps⟩⟩

theorem ArgumentText.text?_evaluate (arg : ArgumentText) : arg.evaluate.1.text?.isSome = true := by
  have hv := Argument.closed_writable.evaluate arg
  generalize arg.evaluate.1 = v at hv ⊢
  cases v with
  | concrete d => exact hv
  | symbolic t => exact Ty.name?_isSome hv

theorem Ty.sampled_samples {t : Ty} (h : t.Printable) (count : Int) :
    Sampled (t.samples count) fun ds => ∀ d ∈ ds, d.write?.isSome = true := by
  have hone : Sampled (do return [← representative t]) fun ds => ∀ d ∈ ds, d.write?.isSome = true :=
    (sampled_representative h).bind fun d hd => sampled_ok (List.forall_mem_singleton.mpr hd)
  have htaken {ds : List Datum} (hds : ∀ d ∈ ds, d.write?.isSome = true) (n : Nat) :
      ∀ d ∈ ds.take n, d.write?.isSome = true := fun d hd => hds d (List.mem_of_mem_take hd)
  cases t with
  | primitive p =>
    cases p with
    | number =>
      refine sampled_ok (htaken ?_ _)
      simp only [numberSamples, List.forall_mem_cons]
      exact ⟨Datum.write?_int (by decide), Datum.write?_int (by decide), Datum.write?_int (by decide),
        Datum.write?_int (by decide), rfl, Datum.write?_int (by decide), rfl, by simp⟩
    | string =>
      refine sampled_ok (List.forall_mem_append.mpr ⟨htaken (by decide) _, ?_⟩)
      exact List.forall_mem_map.mpr fun _ _ => rfl
    | boolean => exact sampled_ok (htaken (by decide) _)
    | _ => exact hone
  | oneOf ms =>
    have hms (m : Ty) (hm : m ∈ ms) : m.Printable := every_child h hm
    exact sampled_inNameOrder hms (sampled_representatives (fun m _ hm => sampled_representative hm) hms)
  | _ => exact hone

namespace Sampling

theorem mem_of_mem_rows {α : Type} {limit : Nat} {pools : List (List α)} {row : List α} {a : α}
    (hr : row ∈ rows limit pools) (ha : a ∈ row) : ∃ pool ∈ pools, a ∈ pool := by
  induction pools generalizing row with
  | nil =>
    obtain rfl := List.mem_singleton.mp (List.mem_of_mem_take hr)
    cases ha
  | cons pool pools ih =>
    obtain ⟨b, hb, hrow⟩ := List.mem_flatMap.mp (List.mem_of_mem_take hr)
    obtain ⟨tail, htail, rfl⟩ := List.mem_map.mp hrow
    rcases List.mem_cons.mp ha with rfl | ha
    · exact ⟨pool, by simp, hb⟩
    · obtain ⟨p, hp, hap⟩ := ih htail ha
      exact ⟨p, List.mem_cons_of_mem _ hp, hap⟩

theorem expand_cases {values : List CaseValue} (hv : ∀ v ∈ values, v.text?.isSome = true) (count limit : Int) :
    (∃ rows, expand values count limit = .ok rows ∧ ∀ row ∈ rows, ∀ d ∈ row, d.write?.isSome = true) ∨
      (∃ n, expand values count limit = .error (.unsampleable n)) ∨
      (expand values count limit = .error .badLimit ∧ (limit < 0 ∨ rowLimit < limit)) := by
  have hpools : Ty.Sampled (values.mapM (pool count)) fun pools => ∀ ds ∈ pools, ∀ d ∈ ds, d.write?.isSome = true := by
    refine Ty.Sampled.mapM fun v hmem => ?_
    cases v with
    | concrete d => exact Ty.sampled_ok (List.forall_mem_singleton.mpr (hv _ hmem))
    | symbolic t => exact Ty.sampled_samples (CaseValue.printable_type (hv _ hmem)) count
  unfold expand
  obtain ⟨pools, hok, hwritten⟩ | ⟨n, hn⟩ := hpools
  · rw [hok]
    by_cases hlimit : limit < 0 ∨ rowLimit < limit
    · exact .inr (.inr ⟨if_pos hlimit, hlimit⟩)
    · refine .inl ⟨rows limit.toNat pools, if_neg hlimit, fun row hrow d hd => ?_⟩
      obtain ⟨ds, hds, hdd⟩ := mem_of_mem_rows hrow hd
      exact hwritten ds hds d hdd
  · rw [hn]
    exact .inr (.inl ⟨n, rfl⟩)

end Sampling

structure Case.Written (c : Case) : Prop where
  arguments : ∀ v ∈ c.arguments, v.text?.isSome = true
  mocks : ∀ m ∈ c.mocks, m.substitute.text?.isSome = true
  expected : ∀ v, c.expected = some v → v.text?.isSome = true

namespace Planning

structure Written (p : Planning) : Prop where
  cases : ∀ c ∈ p.before ++ p.last, c.Written
  mocks : ∀ m ∈ p.mocks, m.substitute.text?.isSome = true
  shared : ∀ v, p.shared = some v → v.text?.isSome = true

def Makes {α : Type} (limits : SampleLimits) (x : Except SampleError α) (P : α → Prop) : Prop :=
  (∃ a, x = .ok a ∧ P a) ∨ (x = .error .badLimit ∧ (limits.rows < 0 ∨ Sampling.rowLimit < limits.rows))

variable {limits : SampleLimits} {p : Planning}

theorem Makes.bind {α β : Type} {P : α → Prop} {Q : β → Prop} {x : Except SampleError α} {f : α → Except SampleError β}
    (hx : Makes limits x P) (hf : ∀ a, P a → Makes limits (f a) Q) : Makes limits (x >>= f) Q := by
  obtain ⟨a, rfl, ha⟩ | ⟨rfl, hlimit⟩ := hx
  · exact hf a ha
  · exact .inr ⟨rfl, hlimit⟩

theorem makes_sampled {c : Case} (hc : c.Written) : Makes limits (sampled limits c) fun cs => ∀ c ∈ cs, c.Written := by
  unfold sampled
  obtain ⟨rows, hrows, hw⟩ | ⟨n, hn⟩ | ⟨hbad, hlimit⟩ :=
    Sampling.expand_cases hc.arguments limits.count limits.rows
  · rw [hrows]
    refine .inl ⟨_, rfl, List.forall_mem_map.mpr fun (row, i) hrow => { hc with arguments := ?_ }⟩
    exact List.forall_mem_map.mpr fun d hd => hw row (List.fst_mem_of_mem_zipIdx hrow) d hd
  · rw [hn]
    exact .inl ⟨[c], rfl, List.forall_mem_singleton.mpr hc⟩
  · rw [hbad]
    exact .inr ⟨rfl, hlimit⟩

theorem makes_addCases (hp : p.Written) (d : Directive) (args : List ArgumentText) :
    Makes limits (p.addCases limits d args) Written := by
  have hc : Case.Written
      { label := labelOf d.name? (p.count + 1), directive := d, arguments := (ArgumentText.evaluateAll args).1,
        mocks := p.mocks, skipped := d.kind == .skip } :=
    ⟨List.forall_mem_map.mpr fun a _ => a.text?_evaluate, hp.mocks, by simp⟩
  have hcases {x : Except SampleError (List Case)} (hx : Makes limits x fun cs => ∀ c ∈ cs, c.Written) :
      Makes limits (do
        let cases ← x
        return { p with
          before := p.before ++ p.last
          last := cases
          count := p.count + 1
          diagnostics := p.diagnostics ++ (ArgumentText.evaluateAll args).2 }) Written :=
    hx.bind fun cs hcs => .inl ⟨_, rfl, { hp with cases := List.forall_mem_append.mpr ⟨hp.cases, hcs⟩ }⟩
  unfold addCases
  dsimp only
  split
  · exact hcases (makes_sampled hc)
  · exact hcases (.inl ⟨_, rfl, List.forall_mem_singleton.mpr hc⟩)

theorem written_addMock (hp : p.Written) (symbol : String) (substitute : ArgumentText) :
    (p.addMock symbol substitute).Written where
  cases := hp.cases
  mocks := List.forall_mem_append.mpr ⟨hp.mocks, List.forall_mem_singleton.mpr substitute.text?_evaluate⟩
  shared := hp.shared

theorem written_addExpectation (hp : p.Written) (expected : ArgumentText) : (p.addExpectation expected).Written where
  cases := by
    obtain ⟨hbefore, hlast⟩ := List.forall_mem_append.mp hp.cases
    refine List.forall_mem_append.mpr ⟨hbefore, List.forall_mem_map.mpr fun c hc => ?_⟩
    exact { hlast c hc with expected := fun v hv => Option.some.inj hv ▸ expected.text?_evaluate }
  mocks := hp.mocks
  shared := by
    intro v hv
    simp only [addExpectation] at hv
    split at hv
    · exact Option.some.inj hv ▸ expected.text?_evaluate
    · exact hp.shared v hv

theorem makes_add (hp : p.Written) (d : Directive) : Makes limits (p.add limits d) Written := by
  unfold add
  split
  · exact .inl ⟨_, rfl, written_addMock hp _ _⟩
  · exact .inl ⟨_, rfl, written_addExpectation hp _⟩
  · exact .inl ⟨_, rfl, hp⟩
  · exact .inl ⟨_, rfl, hp⟩
  · exact makes_addCases hp d _
  · exact makes_addCases hp d _
  · exact makes_addCases hp d _

theorem written_cases (hp : p.Written) : ∀ c ∈ p.cases, c.Written := by
  refine List.forall_mem_map.mpr fun (c, i) hc => ?_
  have hw := hp.cases c (List.fst_mem_of_mem_zipIdx hc)
  refine { hw with expected := fun v hv => ?_ }
  rcases Option.or_eq_some_iff.mp hv with hv | ⟨_, hv⟩
  · exact hw.expected v hv
  · exact hp.shared v hv

end Planning

theorem Plan.makes_ofDirectives (directives : List Directive) (limits : SampleLimits) :
    Planning.Makes limits (ofDirectives directives limits) fun plan => ∀ c ∈ plan.cases, c.Written := by
  have hfold (p : Planning) (hp : p.Written) :
      Planning.Makes limits (directives.foldlM (fun p d => p.add limits d) p) Planning.Written := by
    induction directives generalizing p with
    | nil => exact .inl ⟨p, rfl, hp⟩
    | cons d ds ih =>
      rw [List.foldlM_cons]
      exact (Planning.makes_add hp d).bind ih
  have hstart : Planning.Written {} := ⟨by simp, by simp, by simp⟩
  exact (hfold {} hstart).bind fun p hp => .inl ⟨_, rfl, Planning.written_cases hp⟩

end Casewise
