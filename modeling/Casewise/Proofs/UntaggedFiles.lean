import Casewise.Build
import Mathlib.Data.List.Basic

/-!
Files without a tag. A build looks for a tag in the text of a file as a whole before it analyses the file; the analysis
reads tags line by line, and only in some lines. What the first look misses the second does not find: a line ends at the
end of the text or before a line break, and no line break belongs to a word.
-/

namespace Casewise

namespace Text

theorem isWordChar_of_isWideBreak {c : Char} (h : isWideBreak c = true) : isWordChar c = false := by
  have hmem : c.toNat ∈ [0xa, 0xb, 0xc, 0xd, 0x1c, 0x1d, 0x1e, 0x85, 0x2028, 0x2029] := by
    simpa only [isWideBreak, List.contains_eq_mem, decide_eq_true_eq] using h
  have hbreaks : ∀ n ∈ [0xa, 0xb, 0xc, 0xd, 0x1c, 0x1d, 0x1e, 0x85, 0x2028, 0x2029],
      isWordChar (Char.ofNat n) = false := by
    decide +kernel
  rw [← Char.ofNat_toNat c]
  exact hbreaks c.toNat hmem

theorem exists_around_of_mem_splitAtBreaks {isBreak : Char → Bool} {line cs l : List Char} (hr : isBreak '\r' = true)
    (h : l ∈ splitAtBreaks isBreak line cs) :
    ∃ before after, line.reverse ++ cs = before ++ l ++ after ∧ ∀ c ∈ after.head?, isBreak c = true := by
  fun_induction splitAtBreaks isBreak line cs with
  | case1 line =>
    obtain rfl := List.mem_singleton.mp h
    exact ⟨[], [], by simp, by simp⟩
  | case2 line rest ih =>
    rcases List.mem_cons.mp h with rfl | h
    · exact ⟨[], '\r' :: '\n' :: rest, by simp, by simpa using hr⟩
    · obtain ⟨before, after, hcs, hafter⟩ := ih h
      refine ⟨line.reverse ++ '\r' :: '\n' :: before, after, ?_, hafter⟩
      simpa using hcs
  | case3 line c rest _ hc ih =>
    rcases List.mem_cons.mp h with rfl | h
    · exact ⟨[], c :: rest, by simp, by simpa using hc⟩
    · obtain ⟨before, after, hcs, hafter⟩ := ih h
      refine ⟨line.reverse ++ c :: before, after, ?_, hafter⟩
      simpa using hcs
  | case4 line c rest _ _ ih =>
    obtain ⟨before, after, hcs, hafter⟩ := ih h
    exact ⟨before, after, by simpa using hcs, hafter⟩

theorem exists_around_of_mem_wideLines {cs l : List Char} (h : l ∈ wideLines cs) :
    ∃ before after, cs = before ++ l ++ after ∧ ∀ c ∈ after.head?, isWordChar c = false := by
  have hmem : l ∈ splitAtBreaks isWideBreak [] cs := by
    unfold wideLines at h
    dsimp only at h
    split at h
    · exact List.dropLast_subset _ h
    · exact h
  obtain ⟨before, after, hcs, hafter⟩ := exists_around_of_mem_splitAtBreaks (by decide) hmem
  exact ⟨before, after, hcs, fun c hc => isWordChar_of_isWideBreak (hafter c hc)⟩

end Text

theorem takeWhile_eq_iff {p : Char → Bool} {word cs : List Char} (hword : ∀ c ∈ word, p c = true) :
    cs.takeWhile p = word ↔ ∃ after, cs = word ++ after ∧ ∀ c ∈ after.head?, p c = false := by
  constructor
  · rintro rfl
    refine ⟨cs.dropWhile p, List.takeWhile_append_dropWhile.symm, fun c hc => ?_⟩
    have hhead := List.head?_dropWhile_not p cs
    rw [Option.mem_def.mp hc] at hhead
    exact hhead
  · rintro ⟨after, rfl, hafter⟩
    rw [List.takeWhile_append_of_pos hword]
    cases after with
    | nil => simp
    | cons c after => simp [hafter c rfl]

namespace DirectiveKind

theorem isWordChar_of_mem_name (k : DirectiveKind) : ∀ c ∈ k.name.toList, Text.isWordChar c = true := by
  rw [← List.all_eq_true]
  cases k <;> decide +kernel

theorem isSome_ofName?_iff {name : List Char} :
    (ofName? (String.ofList name)).isSome = true ↔ ∃ k : DirectiveKind, name = k.name.toList := by
  have hall (k : DirectiveKind) : k ∈ all := by cases k <;> decide
  simp only [ofName?, List.find?_isSome, beq_iff_eq]
  constructor
  · rintro ⟨k, _, hk⟩
    exact ⟨k, by rw [hk, String.toList_ofList]⟩
  · rintro ⟨k, rfl⟩
    exact ⟨k, hall k, by rw [String.ofList_toList]⟩

end DirectiveKind

namespace Tag

def Occurs (cs : List Char) : Prop :=
  ∃ before after, ∃ k : DirectiveKind, cs = before ++ mark ++ k.name.toList ++ after ∧
    ∀ c ∈ after.head?, Text.isWordChar c = false

theorem name?_eq_some_iff {cs name : List Char} :
    name? cs = some name ↔ ∃ rest, cs = mark ++ rest ∧ rest.takeWhile Text.isWordChar = name := by
  unfold name?
  constructor
  · intro h
    split at h
    · next hp =>
      obtain ⟨rest, rfl⟩ := List.isPrefixOf_iff_prefix.mp hp
      rw [List.drop_left] at h
      exact ⟨rest, rfl, Option.some.inj h⟩
    · cases h
  · rintro ⟨rest, rfl, rfl⟩
    rw [if_pos (List.isPrefixOf_iff_prefix.mpr (List.prefix_append mark rest)), List.drop_left]

theorem exists_mem_split_iff {cs name : List Char} (position : Nat) :
    (∃ t ∈ (split position cs).2, t.name = name) ↔
      ∃ before rest, cs = before ++ mark ++ rest ∧ rest.takeWhile Text.isWordChar = name := by
  induction cs generalizing position with
  | nil =>
    have hmark : mark ≠ [] := by decide
    simp [split, hmark]
  | cons c cs ih =>
    have hsplit : (∃ t ∈ (split position (c :: cs)).2, t.name = name) ↔
        name? (c :: cs) = some name ∨ ∃ t ∈ (split (position + 1) cs).2, t.name = name := by
      rw [split]
      cases hn : name? (c :: cs) <;> simp
    rw [hsplit, ih, name?_eq_some_iff]
    constructor
    · rintro (⟨rest, hcs, hrest⟩ | ⟨before, rest, rfl, hrest⟩)
      · exact ⟨[], rest, hcs, hrest⟩
      · exact ⟨c :: before, rest, rfl, hrest⟩
    · rintro ⟨before, rest, hcs, hrest⟩
      cases before with
      | nil => exact .inl ⟨rest, hcs, hrest⟩
      | cons b before => exact .inr ⟨before, rest, (List.cons.inj hcs).2, hrest⟩

theorem exists_known_iff {cs : List Char} :
    (∃ t ∈ all cs, (DirectiveKind.ofName? (String.ofList t.name)).isSome = true) ↔ Occurs cs := by
  have hnames : (∃ t ∈ all cs, (DirectiveKind.ofName? (String.ofList t.name)).isSome = true) ↔
      ∃ k : DirectiveKind, ∃ t ∈ all cs, t.name = k.name.toList := by
    simp only [DirectiveKind.isSome_ofName?_iff]
    exact ⟨fun ⟨t, ht, k, hk⟩ => ⟨k, t, ht, hk⟩, fun ⟨k, t, ht, hk⟩ => ⟨t, ht, k, hk⟩⟩
  rw [hnames]
  simp only [all, exists_mem_split_iff]
  constructor
  · rintro ⟨k, before, rest, rfl, hrest⟩
    obtain ⟨after, rfl, hafter⟩ := (takeWhile_eq_iff k.isWordChar_of_mem_name).mp hrest
    exact ⟨before, after, k, by simp, hafter⟩
  · rintro ⟨before, after, k, rfl, hafter⟩
    refine ⟨k, before, k.name.toList ++ after, by simp, ?_⟩
    exact (takeWhile_eq_iff k.isWordChar_of_mem_name).mpr ⟨after, rfl, hafter⟩

theorem isTagged_iff {text : String} : isTagged text = true ↔ Occurs text.toList := by
  rw [isTagged, List.any_eq_true]
  exact exists_known_iff

theorem occurs_of_mem_wideLines {cs l : List Char} (hl : l ∈ Text.wideLines cs) (h : Occurs l) : Occurs cs := by
  obtain ⟨first, last, rfl, hlast⟩ := Text.exists_around_of_mem_wideLines hl
  obtain ⟨before, after, k, rfl, hafter⟩ := h
  refine ⟨first ++ before, after ++ last, k, by simp, ?_⟩
  cases after with
  | nil => simpa using hlast
  | cons c after => simpa using hafter

end Tag

theorem Found.directives_concat_eq_nil {fs : List Found} (h : ∀ f ∈ fs, f.directives = []) :
    (Found.concat fs).directives = [] := by
  induction fs with
  | nil => rfl
  | cons f fs ih =>
    obtain ⟨hf, hfs⟩ := List.forall_mem_cons.mp h
    show f.directives ++ (Found.concat fs).directives = []
    rw [hf, ih hfs, List.nil_append]

theorem Found.directives_ofLine_eq_nil {line : List Char} (h : ¬ Tag.Occurs line) (file : String) (n : Nat) :
    (Found.ofLine line file n).directives = [] := by
  apply Found.directives_concat_eq_nil
  intro f hf
  obtain ⟨t, ht, rfl⟩ := List.mem_map.mp hf
  have hunknown : DirectiveKind.ofName? (String.ofList t.name) = none := by
    rw [← Option.not_isSome_iff_eq_none]
    intro hs
    exact h (Tag.exists_known_iff.mp ⟨t, ht, hs⟩)
  unfold Found.ofTag Tag.directive
  dsimp only
  rw [hunknown]

section

variable {text : String} (h : ¬ Tag.Occurs text.toList)

namespace Annotations

include h in
theorem Reading.directives_line_eq_nil (file : String) (n : Nat) :
    ((Reading.ofText text file).line n).directives = [] := by
  apply Found.directives_ofLine_eq_nil
  intro hline
  unfold Reading.textAt Reading.ofText at hline
  cases hn : (Text.wideLines text.toList)[n - 1]? with
  | none =>
    obtain ⟨before, after, k, he, _⟩ := by simpa only [hn, Option.getD_none] using hline
    have hmark : Tag.mark ≠ [] := by decide
    simp [hmark] at he
  | some l =>
    simp only [hn, Option.getD_some] at hline
    exact h (Tag.occurs_of_mem_wideLines (List.mem_of_getElem? hn) hline)

theorem concat_eq_nil {as : List Annotations} (h : ∀ a ∈ as, a.functions = [] ∧ a.fileMocks = []) :
    (concat as).functions = [] ∧ (concat as).fileMocks = [] := by
  induction as with
  | nil => exact ⟨rfl, rfl⟩
  | cons a as ih =>
    obtain ⟨⟨hf, hm⟩, has⟩ := List.forall_mem_cons.mp h
    obtain ⟨ihf, ihm⟩ := ih has
    show a.functions ++ (concat as).functions = [] ∧ a.fileMocks ++ (concat as).fileMocks = []
    rw [hf, hm, ihf, ihm]
    exact ⟨rfl, rfl⟩

include h in
theorem ofProgram_eq_nil (p : Program) (file : String) :
    (ofProgram p text file).functions = [] ∧ (ofProgram p text file).fileMocks = [] := by
  have hline (n : Nat) := Reading.directives_line_eq_nil h file n
  unfold ofProgram ofReading
  apply concat_eq_nil
  intro a ha
  rcases List.mem_append.mp ha with ha | ha
  · -- The block of a function has no directive, so the function is not annotated.
    obtain ⟨f, _, rfl⟩ := List.mem_map.mp ha
    have hblock : (Found.concat ((p.blockOf f.1).map (Reading.ofText text file).line)).directives = [] := by
      apply Found.directives_concat_eq_nil
      intro found hfound
      obtain ⟨n, _, rfl⟩ := List.mem_map.mp hfound
      exact hline n
    unfold Reading.function
    simp only [hblock, List.isEmpty_nil, if_true, and_self]
  · obtain ⟨n, _, rfl⟩ := List.mem_map.mp ha
    unfold Reading.free
    simp only [hline, List.filter_nil, and_self]

end Annotations

include h in
theorem Analysis.file_of_untagged {f : SourceFile} (htext : f.text = text) (hparsed : f.parsed ≠ none)
    (config : AnalysisConfig) (x : Sandbox.Exchange) :
    ∃ r, (Analysis.file f config).run x = (.ok r, x) ∧ r.signatures = [] ∧ r.functions = [] := by
  unfold Analysis.file
  rcases hp : f.parsed with _ | e | p
  · exact absurd hp hparsed
  · exact ⟨_, rfl, rfl, rfl⟩
  · obtain ⟨hfunctions, hmocks⟩ := Annotations.ofProgram_eq_nil h p f.name
    rw [← htext] at hfunctions hmocks
    dsimp only
    unfold Analysis.program
    dsimp only
    rw [hfunctions, hmocks]
    exact ⟨_, rfl, rfl, rfl⟩

end

/-- A build wants a file exactly if its patterns select it and a tag occurs in its text. Where none does there is nothing
to analyse: whatever was parsed from the text, no function has directives and the file has no mocks, so that the analysis
finds neither signatures nor functions. -/
theorem untagged_files_have_no_signatures (f : SourceFile) :
    (∀ (s : BuildSession) (path : String),
      s.wants? path f.text = some true ↔ s.config.build.selects? path = some true ∧ Tag.Occurs f.text.toList) ∧
    (¬ Tag.Occurs f.text.toList →
      (∀ (p : Program) (file : String),
        (Annotations.ofProgram p f.text file).functions = [] ∧ (Annotations.ofProgram p f.text file).fileMocks = []) ∧
      (f.parsed ≠ none → ∀ (config : AnalysisConfig) (x : Sandbox.Exchange),
        ∃ r, (Analysis.file f config).run x = (.ok r, x) ∧ r.signatures = [] ∧ r.functions = []) ∧
      ∀ (s : BuildSession) (x : Sandbox.Exchange), s.config.build.selects? f.name ≠ none →
        (s.transform f).run x = (.ok (s, .unwanted), x)) := by
  have hwants (s : BuildSession) (path : String) : s.wants? path f.text = some true ↔
      s.config.build.selects? path = some true ∧ Tag.Occurs f.text.toList := by
    simp only [BuildSession.wants?, Option.map_eq_some_iff, Bool.and_eq_true, Tag.isTagged_iff]
    exact ⟨fun ⟨b, hb, h⟩ => ⟨h.1 ▸ hb, h.2⟩, fun ⟨hb, h⟩ => ⟨true, hb, rfl, h⟩⟩
  refine ⟨hwants, fun h => ⟨?_, ?_, ?_⟩⟩
  · intro p file
    exact Annotations.ofProgram_eq_nil h p file
  · intro hparsed config x
    exact Analysis.file_of_untagged h rfl hparsed config x
  · intro s x hs
    have huntagged : Tag.isTagged f.text = false := by
      rw [Bool.eq_false_iff]
      exact mt Tag.isTagged_iff.mp h
    obtain ⟨b, hb⟩ := Option.ne_none_iff_exists'.mp hs
    unfold BuildSession.transform BuildSession.wants?
    rw [hb, Option.map_some, huntagged, Bool.and_false]
    rfl

def nearlyTagged : SourceFile where
  name := "nearly.py"
  text := "# @nudo:cases (1)\n# @nudo: case (1)\ndef f(x):\n    return x\n"
  parsed := some (.ok ⟨[.function f], [⟨1, ""⟩, ⟨2, ""⟩]⟩)
where
  f : FunctionDef Stmt :=
    ⟨⟨3, 0, 4, 12⟩, "f", { ordinary := ["x"] },
      [.returns ⟨4, 4, 4, 12⟩ (some (.name ⟨4, 11, 4, 12⟩ "x"))], [], []⟩

theorem nearlyTagged_has_no_signatures :
    ¬ Tag.Occurs nearlyTagged.text.toList ∧ nearlyTagged.parsed ≠ none ∧
      ∃ r, (Analysis.file nearlyTagged {}).run ⟨[], []⟩ = (.ok r, ⟨[], []⟩) ∧ r.signatures = [] ∧ r.functions = [] := by
  have huntagged : ¬ Tag.Occurs nearlyTagged.text.toList := by
    apply mt Tag.isTagged_iff.mpr
    decide +kernel
  have hparsed : nearlyTagged.parsed ≠ none := Option.some_ne_none _
  exact ⟨huntagged, hparsed, ((untagged_files_have_no_signatures nearlyTagged).2 huntagged).2.1 hparsed {} ⟨[], []⟩⟩

end Casewise
