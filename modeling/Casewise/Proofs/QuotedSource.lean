import Casewise.Proofs.LineNumbers

namespace Casewise

namespace Text

variable {c : Char} {cs rest x y : List Char}

def unified : List Char → List Char
  | [] => []
  | '\r' :: '\n' :: rest => '\n' :: unified rest
  | c :: rest => (if isNarrowBreak c then '\n' else c) :: unified rest

def programLines (cs : List Char) : List (List Char) := (unified cs).splitOn '\n'

def size (cs : List Char) : Nat := (String.ofList cs).utf8ByteSize

def place (cs : List Char) : Nat × Nat :=
  ((cs.splitOn '\n').length, size ((cs.splitOn '\n').getLastD []))

def countWithin (bytes : Nat) (cs : List Char) : Nat :=
  (List.range cs.length).countP fun i => size (cs.take (i + 1)) ≤ bytes

@[simp] theorem size_nil : size [] = 0 := rfl

@[simp] theorem size_cons (c : Char) (cs : List Char) : size (c :: cs) = c.utf8Size + size cs := by
  simp [size, String.ofList_cons]

theorem wholeChars_append (x y : List Char) : Module.wholeChars (size x) (x ++ y) = x.length := by
  induction x with
  | nil =>
    cases y with
    | nil => rfl
    | cons c y =>
      have := c.utf8Size_pos
      rw [List.nil_append, Module.wholeChars, size_nil, if_neg (by omega)]
      rfl
  | cons c x ih =>
    rw [List.cons_append, Module.wholeChars, size_cons, if_pos (by omega), Nat.add_sub_cancel_left, ih, List.length_cons]
    omega

theorem wholeChars_eq (bytes : Nat) (cs : List Char) : Module.wholeChars bytes cs = countWithin bytes cs := by
  induction cs generalizing bytes with
  | nil => rfl
  | cons c cs ih =>
    unfold countWithin
    rw [List.length_cons, List.range_succ_eq_map, List.countP_cons, List.countP_map, Module.wholeChars]
    by_cases hc : c.utf8Size ≤ bytes
    · have hrest : ((fun i => decide (size ((c :: cs).take (i + 1)) ≤ bytes)) ∘ Nat.succ) =
          fun i => decide (size (cs.take (i + 1)) ≤ bytes - c.utf8Size) := by
        funext i
        simp only [Function.comp_apply, Nat.succ_eq_add_one, List.take_succ_cons, size_cons, decide_eq_decide]
        omega
      rw [if_pos hc, ih, hrest, countWithin]
      simp [hc, Nat.add_comm]
    · rw [if_neg hc, List.countP_eq_zero.mpr]
      · simp [hc]
      · intro i _
        simp only [Function.comp_apply, List.take_succ_cons, size_cons, decide_eq_true_eq]
        omega

theorem exists_splitOn (x : List Char) : ∃ init last, x.splitOn '\n' = init ++ [last] ∧
    ∀ {y first more}, y.splitOn '\n' = first :: more → (x ++ y).splitOn '\n' = init ++ (last ++ first) :: more := by
  induction x with
  | nil => exact ⟨[], [], rfl, id⟩
  | cons c x ih =>
    obtain ⟨init, last, hx, happend⟩ := ih
    simp only [List.cons_append, List.splitOn_cons_eq_if_modifyHead, hx]
    by_cases hc : (c == '\n') = true
    · exact ⟨[] :: init, last, by simp [hc], fun hy => by simp [hc, happend hy]⟩
    · cases init with
      | nil => exact ⟨[], c :: last, by simp [hc], fun hy => by simp [hc, happend hy]⟩
      | cons a init => exact ⟨(c :: a) :: init, last, by simp [hc], fun hy => by simp [hc, happend hy]⟩

theorem place_of_splitOn {init : List (List Char)} {last : List Char} (h : cs.splitOn '\n' = init ++ [last]) :
    place cs = (init.length + 1, size last) := by
  simp [place, h]

theorem narrowLines_eq (cs : List Char) : narrowLines cs = programLines cs := by
  refine splitAtBreaks.induct isNarrowBreak (fun _ cs => splitAtBreaks isNarrowBreak [] cs = (unified cs).splitOn '\n')
    (fun _ => rfl) ?pair ?ends ?inside [] cs
  case pair =>
    intro _ rest ih
    rw [splitAtBreaks_pair, ih, unified, List.splitOn_cons_eq_if_modifyHead]
    rfl
  case ends =>
    intro _ c rest hpair hc ih
    rw [splitAtBreaks_break hpair hc, ih, unified, if_pos hc, List.splitOn_cons_eq_if_modifyHead]
    · rfl
    · exact hpair
  case inside =>
    intro _ c rest hpair hc ih
    have hn : (c == '\n') = false := by
      simp [isNarrowBreak] at hc
      simpa using hc.1
    rw [splitAtBreaks_cons hpair (by simpa using hc), ih, unified, if_neg hc, List.splitOn_cons_eq_if_modifyHead, hn]
    · rfl
    · exact hpair

theorem splitAtBreaks_congr {p q : Char → Bool} (h : ∀ c ∈ cs, p c = q c) (line : List Char) :
    splitAtBreaks p line cs = splitAtBreaks q line cs := by
  fun_induction splitAtBreaks p line cs with
  | case1 line => rfl
  | case2 line rest ih => rw [splitAtBreaks_pair, ih fun c hc => h c (by simp [hc])]
  | case3 line c rest hpair hc ih =>
    rw [splitAtBreaks_break hpair ((h c (by simp)).symm.trans hc), ih fun c hc => h c (by simp [hc])]
  | case4 line c rest hpair hc ih =>
    have hq : q c = false := by
      rw [← h c (by simp)]
      simpa using hc
    rw [splitAtBreaks_inside hpair hq, ih fun c hc => h c (by simp [hc])]

end Text

theorem Module.lines_ofProgram (p : Program) (file text : String) :
    (ofProgram p file text).lines = if text.isEmpty then [] else Text.narrowLines text.toList := by
  have hadd (m : Module) (s : Stmt) : (m.add s).lines = m.lines := by
    unfold add
    split <;> rfl
  have hfold (ss : List Stmt) (m : Module) : (ss.foldl add m).lines = m.lines := by
    induction ss generalizing m with
    | nil => rfl
    | cons s ss ih => exact (ih (m.add s)).trans (hadd m s)
  exact hfold p.body _

section

variable {p : Program} {file text : String} {n : Nat} {line : List Char}

theorem Module.line?_ofProgram (h : text ≠ "") :
    (ofProgram p file text).line? (n + 1 : Nat) = (Text.programLines text.toList)[n]? := by
  have hempty : text.isEmpty = false := by simpa using h
  rw [line?, if_pos (by omega), lines_ofProgram, hempty, if_neg Bool.false_ne_true, Text.narrowLines_eq]
  congr 1
  omega

theorem Module.column_eq {m : Module} (h : m.line? (n + 1 : Nat) = some line) (offset : Nat) :
    m.column (n + 1 : Nat) offset = wholeChars offset line + 1 := by
  rw [column, h]
  simp [bytesBefore]

theorem SourceText.lineAt_ofContent (h : ∀ c ∈ text.toList, Text.isWideBreak c = true → Text.isNarrowBreak c = true) :
    (ofContent text file).lineAt (n + 1 : Nat) = (Text.programLines text.toList)[n]?.getD [] := by
  have hbreaks : ∀ c ∈ text.toList, Text.isWideBreak c = Text.isNarrowBreak c := by
    intro c hc
    rw [Bool.eq_iff_iff]
    exact ⟨h c hc, Text.isWideBreak_of_isNarrowBreak c⟩
  have hparts : Text.parts text.toList = Text.programLines text.toList :=
    (Text.splitAtBreaks_congr hbreaks []).trans (Text.narrowLines_eq _)
  rw [← hparts, ← Text.getD_wideLines, lineAt, line?, if_neg (by omega)]
  congr 2
  omega

theorem Module.span_at (p : Program) (file : String) {i j : Nat} {x y u v : List Char} (h : text ≠ "")
    (hfirst : (Text.programLines text.toList)[i]? = some (x ++ y))
    (hlast : (Text.programLines text.toList)[j]? = some (u ++ v)) (hu : 0 < Text.size u) :
    ∃ f, (ofProgram p file text).span ⟨i + 1, Text.size x, j + 1, Text.size u⟩ =
      ⟨f, (i + 1 : Nat), x.length + 1, (j + 1 : Nat), u.length⟩ := by
  have hcolumn {n : Nat} {x y : List Char} (hline : (Text.programLines text.toList)[n]? = some (x ++ y)) :
      (ofProgram p file text).column (n + 1 : Nat) (Text.size x) = x.length + 1 := by
    rw [column_eq ((line?_ofProgram h).trans hline), Text.wholeChars_append]
  refine ⟨(ofProgram p file text).file, ?_⟩
  unfold span
  dsimp only
  rw [if_neg (Nat.ne_of_gt hu), hcolumn hfirst, hcolumn hlast, Int.add_sub_cancel]

end

theorem between_append {α : Type} (x y z : List α) :
    between (x ++ (y ++ z)) x.length (x.length + y.length : Nat) = y := by
  have hclamp {k : Nat} (hk : k ≤ (x ++ (y ++ z)).length) :
      clampBound (x ++ (y ++ z)).length 0 (x ++ (y ++ z)).length k = k := by
    unfold clampBound
    dsimp only
    omega
  unfold between
  dsimp only
  rw [hclamp (by simp), hclamp (by simp), ← Int.natCast_sub (Nat.le_add_right _ _), Nat.add_sub_cancel_left]
  simp

namespace SourceText

variable {s : SourceText} {f : String} {n : Nat} {x y z u : List Char} {lines : List (List Char)}

theorem spanChars_one (h : s.lineAt n = x ++ (y ++ z)) :
    s.spanChars ⟨f, n, x.length + 1, n, (x ++ y).length⟩ = y := by
  unfold spanChars
  dsimp only
  rw [if_pos rfl, h, Int.add_sub_cancel, List.length_append, between_append]

theorem partIn_first {m : Nat} (h : s.lineAt n = x ++ y) : s.partIn ⟨f, n, x.length + 1, m, u.length⟩ n = y := by
  have hpart := between_append x y []
  unfold partIn fromPosition
  dsimp only
  rw [if_pos rfl, h, Int.add_sub_cancel]
  rwa [List.append_nil, ← List.length_append] at hpart

theorem partIn_last {k : Int} {m : Nat} (hm : n < m) (h : s.lineAt m = u ++ z) : s.partIn ⟨f, n, k, m, u.length⟩ m = u := by
  have hpart := between_append [] u z
  unfold partIn
  dsimp only
  rw [if_neg (by omega), if_pos rfl, h]
  simpa using hpart

theorem partIn_middle {k l : Int} {i m : Nat} (hn : n < i) (hm : i < m) : s.partIn ⟨f, n, k, m, l⟩ i = s.lineAt i := by
  unfold partIn
  dsimp only
  rw [if_neg (by omega), if_neg (by omega)]

theorem spanChars_many (hfirst : s.lineAt n = x ++ y)
    (hlines : ∀ i line, lines[i]? = some line → s.lineAt (n + 1 + i : Nat) = line)
    (hlast : s.lineAt (n + 1 + lines.length : Nat) = u ++ z) :
    s.spanChars ⟨f, n, x.length + 1, (n + 1 + lines.length : Nat), u.length⟩ =
      ['\n'].intercalate (y :: (lines ++ [u])) := by
  unfold spanChars
  dsimp only
  rw [if_neg (by omega), show ((n + 1 + lines.length : Nat) - (n : Int) + 1).toNat = lines.length + 1 + 1 by omega]
  congr 1
  apply List.ext_getElem
  · simp
  intro i hi hj
  rw [List.length_map, List.length_range] at hi
  rw [List.getElem_map, List.getElem_range, ← Int.natCast_add]
  obtain rfl | ⟨i, rfl⟩ : i = 0 ∨ ∃ j, i = j + 1 := by cases i <;> simp
  · exact partIn_first hfirst
  rw [List.getElem_cons_succ, show n + (i + 1) = n + 1 + i by omega]
  by_cases hi' : i < lines.length
  · rw [List.getElem_append_left hi', ← hlines i _ (List.getElem?_eq_getElem hi')]
    exact partIn_middle (by omega) (by omega)
  · obtain rfl : i = lines.length := by omega
    rw [List.getElem_concat_length rfl]
    exact partIn_last (by omega) hlast

end SourceText

section

variable {text : String} {init more lines : List (List Char)} {x y u z : List Char}

theorem spanChars_onLine (p : Program) (file name : String)
    (hbreaks : ∀ c ∈ text.toList, Text.isWideBreak c = true → Text.isNarrowBreak c = true) (hne : text ≠ "")
    (hlines : Text.programLines text.toList = init ++ (x ++ (y ++ z)) :: more) (hend : 0 < Text.size (x ++ y)) :
    (SourceText.ofContent text name).spanChars ((Module.ofProgram p file text).span
      ⟨init.length + 1, Text.size x, init.length + 1, Text.size (x ++ y)⟩) = y := by
  have hline : (Text.programLines text.toList)[init.length]? = some (x ++ (y ++ z)) := by simp [hlines]
  obtain ⟨f, hspan⟩ := Module.span_at p file hne hline (by rw [hline, List.append_assoc]) hend
  rw [hspan]
  apply SourceText.spanChars_one
  rw [SourceText.lineAt_ofContent hbreaks, hline, Option.getD_some]

theorem spanChars_overLines (p : Program) (file name : String)
    (hbreaks : ∀ c ∈ text.toList, Text.isWideBreak c = true → Text.isNarrowBreak c = true) (hne : text ≠ "")
    (hlines : Text.programLines text.toList = init ++ (x ++ y) :: (lines ++ (u ++ z) :: more))
    (hend : 0 < Text.size u) :
    (SourceText.ofContent text name).spanChars ((Module.ofProgram p file text).span
      ⟨init.length + 1, Text.size x, init.length + 1 + lines.length + 1, Text.size u⟩) =
        ['\n'].intercalate (y :: (lines ++ [u])) := by
  have hfirst : (Text.programLines text.toList)[init.length]? = some (x ++ y) := by simp [hlines]
  have hlater (i : Nat) : (Text.programLines text.toList)[init.length + 1 + i]? = (lines ++ (u ++ z) :: more)[i]? := by
    rw [hlines, List.getElem?_append_right (by omega), Nat.add_assoc, Nat.add_sub_cancel_left, Nat.add_comm]
    rfl
  have hlast : (Text.programLines text.toList)[init.length + 1 + lines.length]? = some (u ++ z) := by simp [hlater]
  obtain ⟨f, hspan⟩ := Module.span_at p file hne hfirst hlast hend
  rw [hspan, Nat.add_right_comm _ lines.length]
  apply SourceText.spanChars_many
  · rw [SourceText.lineAt_ofContent hbreaks, hfirst, Option.getD_some]
  · intro i line hi
    rw [Nat.add_right_comm, SourceText.lineAt_ofContent hbreaks, hlater,
      List.getElem?_append_left (List.getElem?_eq_some_iff.mp hi).1, hi, Option.getD_some]
  · rw [Nat.add_right_comm, SourceText.lineAt_ofContent hbreaks, hlast, Option.getD_some]

end

/-- Let a text have no line breaks but those of programs, and let a piece of it start and end between characters, at
given lines and byte offsets. The span that is made of these numbers covers this piece, with newlines for its line
breaks. The column of an offset on a line is one more than the number of characters that end within so many bytes. -/
theorem spans_quote_their_pieces (p : Program) (file name text : String) :
    ((∀ c ∈ text.toList, Text.isWideBreak c = true → Text.isNarrowBreak c = true) →
      ∀ (before piece after : List Char) (e : Extent), Text.unified text.toList = before ++ piece ++ after →
        Text.place before = (e.line, e.offset) → Text.place (before ++ piece) = (e.endLine, e.endOffset) →
        0 < e.endOffset →
        (SourceText.ofContent text name).spanText ((Module.ofProgram p file text).span e) = String.ofList piece) ∧
    ∀ (n : Nat) (line : List Char) (offset : Nat), text ≠ "" →
      (Text.programLines text.toList)[n]? = some line →
      (Module.ofProgram p file text).column (n + 1 : Nat) offset = Text.countWithin offset line + 1 := by
  refine ⟨fun hbreaks before piece after e htext hstart hend hoffset => ?_, fun n line offset h hline => ?_⟩
  · have hne : text ≠ "" := by
      rintro rfl
      obtain ⟨rfl, rfl, _⟩ : before = [] ∧ piece = [] ∧ after = [] := by simpa [Text.unified] using htext
      exact absurd (congrArg Prod.snd hend) (Nat.ne_of_lt hoffset)
    obtain ⟨init, x, hbefore, happend⟩ := Text.exists_splitOn before
    obtain ⟨inner, u, hpiece, hjoin⟩ := Text.exists_splitOn piece
    obtain ⟨z, more, hafter⟩ := List.exists_cons_of_ne_nil (List.splitOn_ne_nil '\n' after)
    have hwhole : Text.programLines text.toList = (before ++ (piece ++ after)).splitOn '\n' := by
      rw [Text.programLines, htext, List.append_assoc]
    have hquoted : ['\n'].intercalate (inner ++ [u]) = piece := hpiece ▸ List.intercalate_splitOn '\n'
    obtain ⟨line, offset, endLine, endOffset⟩ := e
    obtain ⟨rfl, rfl⟩ := Prod.mk.inj ((Text.place_of_splitOn hbefore).symm.trans hstart)
    refine congrArg String.ofList (?_ : _ = piece)
    -- Without a newline in the piece its line goes on where the text before it ended.
    cases inner with
    | nil =>
      obtain rfl : u = piece := by simpa using hquoted
      obtain ⟨rfl, rfl⟩ := Prod.mk.inj ((Text.place_of_splitOn (happend hpiece)).symm.trans hend)
      exact spanChars_onLine p file name hbreaks hne (hwhole.trans (happend (hjoin hafter))) hoffset
    | cons y lines =>
      have hends : (before ++ piece).splitOn '\n' = (init ++ (x ++ y) :: lines) ++ [u] := by
        simpa using happend hpiece
      obtain ⟨hrow, rfl⟩ := Prod.mk.inj ((Text.place_of_splitOn hends).symm.trans hend)
      obtain rfl : init.length + 1 + lines.length + 1 = endLine := by
        rw [List.length_append, List.length_cons] at hrow
        dsimp only at hrow
        omega
      rw [spanChars_overLines p file name hbreaks hne (hwhole.trans (happend (hjoin hafter))) hoffset]
      exact hquoted
  · rw [Module.column_eq ((Module.line?_ofProgram h).trans hline), Text.wholeChars_eq]

def accentedText : String := "é = f(\r\n é)\n"

theorem accentedText_quotes_call :
    Text.place "é = ".toList = (1, 5) ∧ Text.place "é = f(\n é)".toList = (2, 4) ∧
      (SourceText.ofContent accentedText "a").spanText
        ((Module.ofProgram ⟨[], []⟩ "a" accentedText).span ⟨1, 5, 2, 4⟩) = "f(\n é)" := by
  have hstart : Text.place "é = ".toList = (1, 5) := by decide +kernel
  have hend : Text.place "é = f(\n é)".toList = (2, 4) := by decide +kernel
  have hbreaks : ∀ c ∈ accentedText.toList, Text.isWideBreak c = true → Text.isNarrowBreak c = true := by
    simp [accentedText, Text.isWideBreak, Text.isNarrowBreak]
  refine ⟨hstart, hend, ?_⟩
  exact (spans_quote_their_pieces ⟨[], []⟩ "a" "a" accentedText).1 hbreaks "é = ".toList
    "f(\n é)".toList ['\n'] ⟨1, 5, 2, 4⟩ (by decide +kernel) hstart hend (by decide)

end Casewise
