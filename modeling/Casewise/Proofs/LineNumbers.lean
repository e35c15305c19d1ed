import Casewise.Proofs.UntaggedFiles
import Mathlib.Data.List.TakeWhile

/-!
Lines by number. The numbers of lines come from a rule that ends lines at some line breaks only: the parser's at a
newline, a return or both together, the tokenizer's at a newline. What stands on a line is looked up by the wide rule. So
the text under a number is the line of this number as long as the lines up to it hold no further break; once an earlier
line holds one, the text is a part of an earlier line.
-/

namespace Casewise

namespace Text

variable {isBreak : Char → Bool} {c : Char} {line cs rest : List Char}

theorem splitAtBreaks_pair (line rest : List Char) : splitAtBreaks isBreak line ('\r' :: '\n' :: rest) =
    line.reverse :: splitAtBreaks isBreak [] rest := rfl

section

variable (hpair : ∀ r, c = '\r' → rest = '\n' :: r → False)

include hpair

theorem splitAtBreaks_single : splitAtBreaks isBreak line (c :: rest) =
    if isBreak c then line.reverse :: splitAtBreaks isBreak [] rest else splitAtBreaks isBreak (c :: line) rest := by
  rw [splitAtBreaks]
  exact hpair

theorem splitAtBreaks_break (hc : isBreak c = true) : splitAtBreaks isBreak line (c :: rest) =
    line.reverse :: splitAtBreaks isBreak [] rest := by
  rw [splitAtBreaks_single hpair, if_pos hc]

theorem splitAtBreaks_inside (hc : isBreak c = false) : splitAtBreaks isBreak line (c :: rest) =
    splitAtBreaks isBreak (c :: line) rest := by
  rw [splitAtBreaks_single hpair, if_neg (by simp [hc])]

end

theorem splitAtBreaks_append (line before cs : List Char) : splitAtBreaks isBreak (line ++ before) cs =
    (splitAtBreaks isBreak line cs).modifyHead (before.reverse ++ ·) := by
  fun_induction splitAtBreaks isBreak line cs with
  | case1 line => simp [splitAtBreaks]
  | case2 line rest => simp [splitAtBreaks_pair]
  | case3 line c rest hpair hc => simp [splitAtBreaks_break hpair hc]
  | case4 line c rest hpair hc ih =>
    rw [splitAtBreaks_inside hpair (by simpa using hc)]
    exact ih

theorem splitAtBreaks_cons (hpair : ∀ r, c = '\r' → rest = '\n' :: r → False) (hc : isBreak c = false) :
    splitAtBreaks isBreak [] (c :: rest) = (splitAtBreaks isBreak [] rest).modifyHead (c :: ·) := by
  rw [splitAtBreaks_inside hpair hc]
  exact splitAtBreaks_append [] [c] rest

theorem exists_splitAtBreaks (isBreak : Char → Bool) (line cs : List Char) :
    ∃ first more, splitAtBreaks isBreak line cs = (line.reverse ++ first) :: more ∧ first <+: cs := by
  fun_induction splitAtBreaks isBreak line cs with
  | case1 line => exact ⟨[], [], by simp, List.nil_prefix⟩
  | case2 line rest => exact ⟨[], splitAtBreaks isBreak [] rest, by simp, List.nil_prefix⟩
  | case3 line c rest => exact ⟨[], splitAtBreaks isBreak [] rest, by simp, List.nil_prefix⟩
  | case4 line c rest _ _ ih =>
    obtain ⟨first, more, hlines, hprefix⟩ := ih
    exact ⟨c :: first, more, by simpa using hlines, List.cons_prefix_cons.mpr ⟨rfl, hprefix⟩⟩

def IsOneLine (line : List Char) : Prop := ∀ c ∈ line, isWideBreak c = false

def parts (line : List Char) : List (List Char) := splitAtBreaks isWideBreak [] line

theorem parts_pair : parts ('\r' :: '\n' :: rest) = [] :: parts rest := splitAtBreaks_pair [] rest

theorem parts_break (hpair : ∀ r, c = '\r' → rest = '\n' :: r → False) (hc : isWideBreak c = true) :
    parts (c :: rest) = [] :: parts rest := splitAtBreaks_break hpair hc

theorem parts_cons (hc : isWideBreak c = false) : parts (c :: rest) = (parts rest).modifyHead (c :: ·) := by
  refine splitAtBreaks_cons ?_ hc
  rintro _ rfl
  cases hc

theorem parts_ne_nil (line : List Char) : parts line ≠ [] := by
  obtain ⟨first, more, hlines, _⟩ := exists_splitAtBreaks isWideBreak [] line
  simp [parts, hlines]

theorem head?_parts (line : List Char) : (parts line).head? = some (line.takeWhile fun c => !isWideBreak c) := by
  have hlines (before : List Char) : (splitAtBreaks isWideBreak before line).head? =
      some (before.reverse ++ line.takeWhile fun c => !isWideBreak c) := by
    fun_induction splitAtBreaks isWideBreak before line with
    | case1 before => simp
    | case2 before rest =>
      have hreturn : isWideBreak '\r' = true := by decide
      simp [hreturn]
    | case3 before c rest _ hc => simp [hc]
    | case4 before c rest _ hc ih => simpa [hc] using ih
  exact hlines []

theorem parts_eq_singleton (h : IsOneLine line) : parts line = [line] := by
  induction line with
  | nil => rfl
  | cons c rest ih =>
    obtain ⟨hc, hrest⟩ := List.forall_mem_cons.mp h
    rw [parts_cons hc, ih hrest]
    rfl

theorem one_lt_length_parts (h : ¬ IsOneLine line) : 1 < (parts line).length := by
  have hpos (cs : List Char) : 0 < (parts cs).length := List.length_pos_iff.mpr (parts_ne_nil cs)
  induction line with
  | nil => exact absurd (by simp [IsOneLine]) h
  | cons c rest ih =>
    by_cases hc : isWideBreak c = true
    · by_cases hpair : ∃ r, c = '\r' ∧ rest = '\n' :: r
      · obtain ⟨r, rfl, rfl⟩ := hpair
        simpa [parts_pair] using hpos r
      · simpa [parts_break (fun r hreturn hr => hpair ⟨r, hreturn, hr⟩) hc] using hpos rest
    · have hc : isWideBreak c = false := by simpa using hc
      have hrest : ¬ IsOneLine rest := fun hrest => h (List.forall_mem_cons.mpr ⟨hc, hrest⟩)
      simpa [parts_cons hc] using ih hrest

theorem flatMap_parts (hb : ∀ c, isBreak c = true → isWideBreak c = true) (cs : List Char) :
    (splitAtBreaks isBreak [] cs).flatMap parts = parts cs := by
  refine splitAtBreaks.induct isBreak (fun _ cs => (splitAtBreaks isBreak [] cs).flatMap parts = parts cs)
    (fun _ => rfl) ?pair ?ends ?inside [] cs
  case pair =>
    intro _ rest ih
    rw [splitAtBreaks_pair, List.flatMap_cons, ih, parts_pair]
    rfl
  case ends =>
    intro _ c rest hpair hc ih
    rw [splitAtBreaks_break hpair hc, List.flatMap_cons, ih, parts_break hpair (hb c hc)]
    rfl
  case inside =>
    intro _ c rest hpair hc ih
    obtain ⟨first, more, hlines, hprefix⟩ := exists_splitAtBreaks isBreak [] rest
    rw [splitAtBreaks_cons hpair (by simpa using hc)]
    rw [hlines] at ih ⊢
    by_cases hw : isWideBreak c = true
    · -- a return and a newline that the line starts with would be a pair in the text
      have hfirst : ∀ r, c = '\r' → first = '\n' :: r → False := by
        rintro r rfl rfl
        obtain ⟨after, rfl⟩ := hprefix
        exact hpair _ rfl rfl
      rw [parts_break hpair hw, ← ih]
      simp [parts_break hfirst hw]
    · have hw : isWideBreak c = false := by simpa using hw
      obtain ⟨part, others, hparts⟩ := List.exists_cons_of_ne_nil (parts_ne_nil first)
      rw [parts_cons hw, ← ih]
      simp [parts_cons hw, hparts]

variable {lines : List (List Char)} {i : Nat}

theorem getElem?_flatMap_parts (h : ∀ l ∈ lines.take i, IsOneLine l) :
    (lines.flatMap parts)[i]? = lines[i]?.map fun l => l.takeWhile fun c => !isWideBreak c := by
  induction lines generalizing i with
  | nil => simp
  | cons l lines ih =>
    rw [List.flatMap_cons]
    cases i with
    | zero =>
      obtain ⟨part, others, hparts⟩ := List.exists_cons_of_ne_nil (parts_ne_nil l)
      have hhead := head?_parts l
      rw [hparts] at hhead ⊢
      simpa using hhead
    | succ i =>
      obtain ⟨hl, hlines⟩ := List.forall_mem_cons.mp h
      rw [parts_eq_singleton hl]
      exact ih hlines

theorem length_lt_flatMap_parts (h : ∃ l ∈ lines, ¬ IsOneLine l) : lines.length < (lines.flatMap parts).length := by
  have hle (ls : List (List Char)) : ls.length ≤ (ls.flatMap parts).length := by
    induction ls with
    | nil => simp
    | cons l ls ih =>
      have := List.length_pos_iff.mpr (parts_ne_nil l)
      rw [List.flatMap_cons, List.length_append, List.length_cons]
      omega
  obtain ⟨l, hl, hbroken⟩ := h
  obtain ⟨before, after, rfl⟩ := List.append_of_mem hl
  have hbefore := hle before
  have hafter := hle after
  have hmore := one_lt_length_parts hbroken
  simp only [List.flatMap_append, List.flatMap_cons, List.length_append, List.length_cons]
  omega

theorem exists_mem_parts (hi : i ≤ lines.length) (h : ∃ l ∈ lines.take i, ¬ IsOneLine l) :
    ∃ l ∈ lines.take i, ∃ part ∈ parts l, (lines.flatMap parts)[i]? = some part := by
  have hlength := length_lt_flatMap_parts h
  rw [List.length_take, Nat.min_eq_left hi] at hlength
  have hget : (lines.flatMap parts)[i]? = ((lines.take i).flatMap parts)[i]? := by
    have hsplit : lines.flatMap parts = (lines.take i).flatMap parts ++ (lines.drop i).flatMap parts := by
      rw [← List.flatMap_append, List.take_append_drop]
    rw [hsplit, List.getElem?_append_left hlength]
  obtain ⟨l, hl, hpart⟩ := List.mem_flatMap.mp (List.getElem_mem hlength)
  exact ⟨l, hl, _, hpart, hget.trans (List.getElem?_eq_getElem hlength)⟩

theorem getD_wideLines (cs : List Char) (i : Nat) : (wideLines cs)[i]?.getD [] = (parts cs)[i]?.getD [] := by
  unfold wideLines
  dsimp only
  split
  · next hlast =>
    obtain ⟨init, hinit⟩ := List.getLast?_eq_some_iff.mp (beq_iff_eq.mp hlast)
    have hparts : parts cs = init ++ [[]] := hinit
    rw [hparts, hinit, List.dropLast_concat, List.getElem?_append]
    split
    · rfl
    · next hle =>
      rw [List.getElem?_eq_none (Nat.le_of_not_lt hle)]
      cases i - init.length <;> rfl
  · rfl

theorem isWideBreak_of_isNarrowBreak (c : Char) (h : isNarrowBreak c = true) : isWideBreak c = true := by
  simp only [isNarrowBreak, Bool.or_eq_true, beq_iff_eq] at h
  rcases h with rfl | rfl <;> decide

end Text

def Program.readLines (p : Program) : List Nat := (p.topFunctions.flatMap fun f => p.blockOf f.1) ++ p.commentLines

namespace Annotations

namespace Reading

variable {r s : Reading} {p : Program}

theorem line_congr {n : Nat} (hfile : r.file = s.file) (h : r.textAt n = s.textAt n) : r.line n = s.line n := by
  rw [line, line, hfile, h]

theorem function_congr {f : FunctionDef Stmt} (isAsync : Bool) (hfile : r.file = s.file)
    (h : ∀ n ∈ p.blockOf f, r.line n = s.line n) : r.function p f isAsync = s.function p f isAsync := by
  unfold function
  rw [List.map_congr_left h, hfile]

theorem textAt_ofText (text file : String) (n : Nat) :
    (ofText text file).textAt n = (Text.parts text.toList)[n - 1]?.getD [] :=
  Text.getD_wideLines text.toList (n - 1)

end Reading

theorem ofReading_congr {r s : Reading} {p : Program} (hfile : r.file = s.file)
    (h : ∀ n ∈ p.readLines, r.textAt n = s.textAt n) : ofReading r p = ofReading s p := by
  have hline (n : Nat) (hn : n ∈ p.readLines) : r.line n = s.line n := Reading.line_congr hfile (h n hn)
  have howned : p.topFunctions.map (fun f => r.function p f.1 f.2) =
      p.topFunctions.map (fun f => s.function p f.1 f.2) := by
    refine List.map_congr_left fun f hf => Reading.function_congr f.2 hfile fun n hn => hline n ?_
    exact List.mem_append_left _ (List.mem_flatMap.mpr ⟨f, hf, hn⟩)
  have hrest (ns : List Nat) (hns : ∀ n ∈ ns, n ∈ p.commentLines) : ns.map r.free = ns.map s.free := by
    refine List.map_congr_left fun n hn => ?_
    unfold Reading.free
    rw [hline n (List.mem_append_right _ (hns n hn))]
  unfold ofReading
  dsimp only
  rw [howned, hrest _ fun n hn => (List.mem_filter.mp hn).1]

section

variable {isBreak : Char → Bool} {text : String} {lines : List (List Char)}
  (hb : ∀ c, isBreak c = true → Text.isWideBreak c = true) (hlines : lines = Text.splitAtBreaks isBreak [] text.toList)

include hb hlines

theorem textAt_eq_flatMap (file : String) (n : Nat) :
    (Reading.ofText text file).textAt n = (lines.flatMap Text.parts)[n - 1]?.getD [] := by
  rw [Reading.textAt_ofText, hlines, Text.flatMap_parts hb]

theorem textAt_eq_takeWhile (file : String) {n : Nat} (h : ∀ l ∈ lines.take (n - 1), Text.IsOneLine l) :
    (Reading.ofText text file).textAt n = (lines[n - 1]?.getD []).takeWhile fun c => !Text.isWideBreak c := by
  rw [textAt_eq_flatMap hb hlines, Text.getElem?_flatMap_parts h]
  cases lines[n - 1]? <;> rfl

theorem textAt_eq_line (file : String) {n : Nat} (hn : 1 ≤ n) (h : ∀ l ∈ lines.take n, Text.IsOneLine l) :
    (Reading.ofText text file).textAt n = lines[n - 1]?.getD [] := by
  have hbefore : ∀ l ∈ lines.take (n - 1), Text.IsOneLine l :=
    fun l hl => h l (List.take_subset_take_left lines (Nat.sub_le n 1) hl)
  rw [textAt_eq_takeWhile hb hlines file hbefore]
  cases hline : lines[n - 1]? with
  | none => rfl
  | some line =>
    have hone : Text.IsOneLine line := by
      refine h line (List.mem_of_getElem? (i := n - 1) ?_)
      rw [List.getElem?_take_of_lt (by omega), hline]
    exact List.takeWhile_eq_self_iff.mpr fun c hc => by simp [hone c hc]

end

/-- Directives are read under the numbers that lines have by a rule that breaks lines only at line breaks. If no line up
to those with directives holds a further break, each of them is read from its own line. In general, let the first `n` lines
hold no further break: the text that is read under `n` is the line itself. If only the line `n` holds one, the text is
the part of the line before it. If an earlier line holds one, the text is a part of an earlier line. -/
theorem directives_read_from_their_lines (p : Program) (text file : String) (isBreak : Char → Bool)
    (hb : ∀ c, isBreak c = true → Text.isWideBreak c = true) (lines : List (List Char))
    (hlines : lines = Text.splitAtBreaks isBreak [] text.toList) :
    ((∀ n ∈ p.readLines, 1 ≤ n ∧ ∀ l ∈ lines.take n, Text.IsOneLine l) →
      ofProgram p text file = ofReading ⟨file, lines⟩ p) ∧
    ∀ n line, 1 ≤ n → lines[n - 1]? = some line →
      ((∀ l ∈ lines.take n, Text.IsOneLine l) → (Reading.ofText text file).textAt n = line) ∧
      ((∀ l ∈ lines.take (n - 1), Text.IsOneLine l) → ¬ Text.IsOneLine line →
        (Reading.ofText text file).textAt n = (line.takeWhile fun c => !Text.isWideBreak c) ∧
        (Reading.ofText text file).textAt n ≠ line) ∧
      ((∃ l ∈ lines.take (n - 1), ¬ Text.IsOneLine l) →
        ∃ l ∈ lines.take (n - 1), (Reading.ofText text file).textAt n ∈ Text.parts l) := by
  refine ⟨fun h => ?_, fun n line hn hline => ⟨fun h => ?_, fun h hbroken => ?_, fun h => ?_⟩⟩
  · rw [ofProgram]
    exact ofReading_congr rfl fun n hn => textAt_eq_line hb hlines file (h n hn).1 (h n hn).2
  · rw [textAt_eq_line hb hlines file hn h, hline]
    rfl
  · have htext := textAt_eq_takeWhile hb hlines file h
    rw [hline, Option.getD_some] at htext
    refine ⟨htext, fun heq => hbroken fun c hc => ?_⟩
    have hall := List.takeWhile_eq_self_iff.mp (htext.symm.trans heq) c hc
    simpa using hall
  · have hle : n - 1 ≤ lines.length := Nat.le_of_lt (List.getElem?_eq_some_iff.mp hline).1
    obtain ⟨l, hl, part, hpart, hget⟩ := Text.exists_mem_parts hle h
    refine ⟨l, hl, ?_⟩
    rw [textAt_eq_flatMap hb hlines, hget]
    exact hpart

def pageBreak : Program where
  body := [.function ⟨⟨3, 0, 3, 15⟩, "f", {}, [.returns ⟨3, 9, 3, 15⟩ none], [], []⟩]
  comments := [⟨2, ""⟩]

def pageBreakText : String := "\x0c\n# @nudo:pure\ndef f(): return\n"

theorem pageBreak_hides_directive :
    (Reading.ofText pageBreakText "f").textAt 2 = [] ∧
      (∃ l ∈ (Text.narrowLines pageBreakText.toList).take 1,
        (Reading.ofText pageBreakText "f").textAt 2 ∈ Text.parts l) ∧
      (ofProgram pageBreak pageBreakText "f").functions.length = 0 ∧
      (ofReading ⟨"f", Text.narrowLines pageBreakText.toList⟩ pageBreak).functions.length = 1 := by
  refine ⟨by decide +kernel, ?_, by decide +kernel, by decide +kernel⟩
  have hlines := directives_read_from_their_lines pageBreak pageBreakText "f" Text.isNarrowBreak
    Text.isWideBreak_of_isNarrowBreak _ rfl
  refine (hlines.2 2 "# @nudo:pure".toList (by decide) (by decide +kernel)).2.2 ⟨['\x0c'], by decide +kernel, ?_⟩
  intro hone
  exact absurd (hone '\x0c' (by decide)) (by decide)

end Annotations

end Casewise
