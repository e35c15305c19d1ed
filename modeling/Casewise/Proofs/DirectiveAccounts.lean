import Casewise.Proofs.LineNumbers
import Casewise.Proofs.Lists
import Mathlib.Data.List.Nodup
import Mathlib.Data.List.Perm.Basic

namespace Casewise

theorem mem_linesAbove {comments : List Nat} {k n : Nat} :
    n ∈ linesAbove comments k ↔ n < k ∧ ∀ m, n ≤ m → m < k → m ∈ comments := by
  induction k with
  | zero => simp [linesAbove]
  | succ k ih =>
    rw [linesAbove]
    split
    · next hk =>
      rw [List.mem_append, List.mem_singleton, ih]
      constructor
      · rintro (⟨hn, h⟩ | rfl)
        · refine ⟨by omega, fun m hm hlt => ?_⟩
          obtain rfl | hlt := Nat.eq_or_lt_of_le (Nat.le_of_lt_succ hlt)
          · exact hk
          · exact h m hm hlt
        · refine ⟨by omega, fun m hm hlt => ?_⟩
          obtain rfl : m = n := by omega
          exact hk
      · rintro ⟨hn, h⟩
        by_cases he : n = k
        · exact .inr he
        · exact .inl ⟨by omega, fun m hm hlt => h m hm (by omega)⟩
    · next hk =>
      refine iff_of_false (by simp) fun ⟨hn, h⟩ => hk ?_
      exact h k (by omega) (by omega)

theorem pairwise_linesAbove (comments : List Nat) (k : Nat) : (linesAbove comments k).Pairwise (· < ·) := by
  induction k with
  | zero => exact .nil
  | succ k ih =>
    rw [linesAbove]
    split
    · refine List.pairwise_append.mpr ⟨ih, List.pairwise_singleton _ _, fun n hn m hm => ?_⟩
      rw [List.mem_singleton.mp hm]
      exact (mem_linesAbove.mp hn).1
    · exact .nil

namespace Program

variable {p : Program} {f g : FunctionDef Stmt × Bool}

def freeLines (p : Program) : List Nat :=
  p.commentLines.filter fun n => !(p.topFunctions.flatMap fun f => p.blockOf f.1).contains n

def parsedLines (p : Program) : List Nat := (p.topFunctions.flatMap fun f => p.blockOf f.1) ++ p.freeLines

structure Placed (p : Program) : Prop where
  starts : ∀ f ∈ p.topFunctions, f.1.firstLine ≤ f.1.pos.endLine
  inside : ∀ f ∈ p.topFunctions, ∀ n ∈ f.1.docstringLines, f.1.firstLine ≤ n ∧ n ≤ f.1.pos.endLine
  apart : p.topFunctions.Pairwise fun f g => f.1.pos.endLine < g.1.firstLine

def Separated (p : Program) : Prop :=
  p.topFunctions.Pairwise fun f g => ∀ n ∈ p.blockOf f.1, ∃ m, n ≤ m ∧ m < g.1.firstLine ∧ m ∉ p.commentLines

theorem nodup_commentLines (p : Program) : p.commentLines.Nodup := by
  refine (sortBy_perm _ _).nodup_iff.mpr ((pairwise_distinctBy _ _).imp fun hne he => ?_)
  simp [he] at hne

theorem pairwise_docstringLines (f : FunctionDef Stmt) : f.docstringLines.Pairwise (· < ·) := by
  unfold FunctionDef.docstringLines
  split
  · exact List.pairwise_lt_range'
  · exact .nil

theorem flatMap_parsedLines {α : Type} (p : Program) (g : Nat → List α) :
    p.parsedLines.flatMap g = (p.topFunctions.flatMap fun f => (p.blockOf f.1).flatMap g) ++ p.freeLines.flatMap g := by
  rw [parsedLines, List.flatMap_append, List.flatMap_assoc]

theorem mem_parsedLines (p : Program) (n : Nat) :
    n ∈ p.parsedLines ↔ n ∈ p.commentLines ∨ ∃ f ∈ p.topFunctions, n ∈ f.1.docstringLines := by
  constructor
  · intro hn
    rcases List.mem_append.mp hn with hn | hn
    · obtain ⟨f, hf, hn⟩ := List.mem_flatMap.mp hn
      rcases List.mem_append.mp hn with hn | hn
      · obtain ⟨hlt, hall⟩ := mem_linesAbove.mp hn
        exact .inl (hall n (Nat.le_refl n) hlt)
      · exact .inr ⟨f, hf, hn⟩
    · exact .inl (List.mem_filter.mp hn).1
  · rintro (hn | ⟨f, hf, hn⟩)
    · by_cases hclaimed : n ∈ p.topFunctions.flatMap fun f => p.blockOf f.1
      · exact List.mem_append_left _ hclaimed
      · exact List.mem_append_right _ (List.mem_filter.mpr ⟨hn, by simpa using hclaimed⟩)
    · exact List.mem_append_left _ (List.mem_flatMap.mpr ⟨f, hf, List.mem_append_right _ hn⟩)

namespace Placed

variable (h : p.Placed)

include h

theorem pairwise_blockOf (hf : f ∈ p.topFunctions) : (p.blockOf f.1).Pairwise (· < ·) := by
  refine List.pairwise_append.mpr ⟨pairwise_linesAbove _ _, pairwise_docstringLines f.1, fun n hn m hm => ?_⟩
  have hbefore := (mem_linesAbove.mp hn).1
  have hinside := (h.inside f hf m hm).1
  omega

theorem le_of_mem_blockOf {n : Nat} (hf : f ∈ p.topFunctions) (hn : n ∈ p.blockOf f.1) : n ≤ f.1.pos.endLine := by
  rcases List.mem_append.mp hn with hn | hn
  · have hbefore := (mem_linesAbove.mp hn).1
    have hstarts := h.starts f hf
    omega
  · exact (h.inside f hf n hn).2

theorem disjoint_iff (hf : f ∈ p.topFunctions) (hg : g ∈ p.topFunctions) (hfg : f.1.pos.endLine < g.1.firstLine) :
    (p.blockOf f.1).Disjoint (p.blockOf g.1) ↔
      ∀ n ∈ p.blockOf f.1, ∃ m, n ≤ m ∧ m < g.1.firstLine ∧ m ∉ p.commentLines := by
  constructor
  · intro hd n hn
    by_contra hno
    have hlt : n < g.1.firstLine := (h.le_of_mem_blockOf hf hn).trans_lt hfg
    refine hd hn (List.mem_append_left _ (mem_linesAbove.mpr ⟨hlt, fun m hm hlt => ?_⟩))
    by_contra hm'
    exact hno ⟨m, hm, hlt, hm'⟩
  · intro hsep n hn hn'
    obtain ⟨m, hm, hlt, hout⟩ := hsep n hn
    rcases List.mem_append.mp hn' with hn' | hn'
    · exact hout ((mem_linesAbove.mp hn').2 m hm hlt)
    · have hle := h.le_of_mem_blockOf hf hn
      have hinside := (h.inside g hg n hn').1
      omega

theorem nodup_iff : p.parsedLines.Nodup ↔ p.Separated := by
  have hfree : p.freeLines.Nodup := p.nodup_commentLines.filter _
  have happart : (p.topFunctions.flatMap fun f => p.blockOf f.1).Disjoint p.freeLines := by
    intro n hn hn'
    simpa [hn] using (List.mem_filter.mp hn').2
  have hblocks : ∀ f ∈ p.topFunctions, (p.blockOf f.1).Nodup := fun f hf => (h.pairwise_blockOf hf).imp Nat.ne_of_lt
  rw [parsedLines, List.nodup_append', and_iff_left ⟨hfree, happart⟩, List.nodup_flatMap, and_iff_right hblocks]
  constructor
  · intro hd
    exact (h.apart.and hd).imp_of_mem fun hf hg hfg => (h.disjoint_iff hf hg hfg.1).mp hfg.2
  · intro hs
    exact (h.apart.and hs).imp_of_mem fun hf hg hfg => (h.disjoint_iff hf hg hfg.1).mpr hfg.2

end Placed

theorem separated_of_code (h : ∀ f ∈ p.topFunctions, ∀ n ∈ f.1.firstLine :: f.1.docstringLines, n ∉ p.commentLines)
    (hp : p.Placed) : p.Separated := by
  refine hp.apart.imp_of_mem fun {f g} hf _ hfg n hn => ?_
  have hend := hp.le_of_mem_blockOf hf hn
  rcases List.mem_append.mp hn with hn | hn
  · have hstarts := hp.starts f hf
    exact ⟨f.1.firstLine, (mem_linesAbove.mp hn).1.le, by omega, h f hf _ (by simp)⟩
  · exact ⟨n, Nat.le_refl n, by omega, h f hf n (by simp [hn])⟩

end Program

namespace Annotations

theorem concat_eq_flatMap {α : Type} (f : Annotations → List α) (hnil : f {} = [])
    (happend : ∀ a b, f (a.append b) = f a ++ f b) (as : List Annotations) : f (concat as) = as.flatMap f := by
  induction as with
  | nil => exact hnil
  | cons a as ih => exact (happend a _).trans (congrArg (f a ++ ·) ih)

namespace Reading

variable (r : Reading) (p : Program)

def directivesOn (ns : List Nat) : List Directive := ns.flatMap fun n => (r.line n).directives

def errorsOn (ns : List Nat) : List Diagnostic := ns.flatMap fun n => (r.line n).errors

theorem concat_lines (ns : List Nat) : Found.concat (ns.map r.line) = ⟨r.directivesOn ns, r.errorsOn ns⟩ := by
  induction ns with
  | nil => rfl
  | cons n ns ih =>
    show (r.line n).append (Found.concat (ns.map r.line)) = _
    rw [ih]
    rfl

def unanalyzed (f : FunctionDef Stmt × Bool) : Diagnostic :=
  .warning "W101" ("async function '" ++ f.1.name ++ "' is not analyzed") (f.1.nameSpan r.file)

def dropped : List Directive := (p.topFunctions.filter (·.2)).flatMap fun f => r.directivesOn (p.blockOf f.1)

def unowned : List Directive := (r.directivesOn p.freeLines).filter (·.kind != .mock)

end Reading

/-- Each directive on the lines that are read is in one place: in the list of a function that is analyzed, with an
asynchronous function, among the mocks of the file or among those that are ignored. Each error is reported, each
asynchronous function with directives and each directive that is ignored has a warning, and nothing else is reported. -/
structure Accounts (r : Reading) (p : Program) (a : Annotations) : Prop where
  functions : a.functions = ((p.topFunctions.filter (!·.2)).map fun f =>
    ⟨f.1, f.1.nameSpan r.file, r.directivesOn (p.blockOf f.1)⟩).filter fun f => !f.directives.isEmpty
  directives : ((a.functions.flatMap (·.directives) ++ r.dropped p) ++ (a.fileMocks ++ r.unowned p)).Perm
    (r.directivesOn p.parsedLines)
  fileMocks : ∀ d ∈ a.fileMocks, d.kind = .mock
  diagnostics : a.diagnostics.Perm ((r.errorsOn p.parsedLines ++
    (p.topFunctions.filter fun f => f.2 && !(r.directivesOn (p.blockOf f.1)).isEmpty).map r.unanalyzed) ++
      (r.unowned p).map Reading.ignored)

theorem flatMap_ite {α β : Type} (q : α → Bool) (g : α → β) (as : List α) :
    as.flatMap (fun a => if q a then [g a] else []) = (as.filter q).map g := by
  induction as with
  | nil => rfl
  | cons a as ih =>
    rw [List.flatMap_cons, ih, List.filter_cons]
    split <;> rfl

theorem flatMap_filter_nonempty {α β : Type} (g : α → List β) (as : List α) :
    (as.filter fun a => !(g a).isEmpty).flatMap g = as.flatMap g := by
  induction as with
  | nil => rfl
  | cons a as ih =>
    rw [List.flatMap_cons, List.filter_cons]
    split
    · rw [List.flatMap_cons, ih]
    · next he =>
      have hnone : g a = [] := by simpa using he
      rw [ih, hnone, List.nil_append]

theorem Reading.function_eq (r : Reading) (p : Program) (f : FunctionDef Stmt × Bool) :
    r.function p f.1 f.2 =
      { functions := if !f.2 && !(r.directivesOn (p.blockOf f.1)).isEmpty then
          [⟨f.1, f.1.nameSpan r.file, r.directivesOn (p.blockOf f.1)⟩] else []
        diagnostics := r.errorsOn (p.blockOf f.1) ++
          if f.2 && !(r.directivesOn (p.blockOf f.1)).isEmpty then [r.unanalyzed f] else [] } := by
  obtain ⟨f, isAsync⟩ := f
  unfold Reading.function
  dsimp only
  rw [concat_lines]
  cases isAsync <;> cases (r.directivesOn (p.blockOf f)).isEmpty <;> simp [unanalyzed]

section

variable (r : Reading) (p : Program)

theorem ofReading_eq_flatMap {α : Type} (g : Annotations → List α) (hnil : g {} = [])
    (happend : ∀ a b, g (a.append b) = g a ++ g b) : g (ofReading r p) =
      (p.topFunctions.flatMap fun f => g (r.function p f.1 f.2)) ++ p.freeLines.flatMap fun n => g (r.free n) := by
  refine (concat_eq_flatMap g hnil happend _).trans ?_
  rw [List.flatMap_append, List.flatMap_map, List.flatMap_map]
  rfl

theorem functions_ofReading : (ofReading r p).functions = ((p.topFunctions.filter (!·.2)).map fun f =>
    ⟨f.1, f.1.nameSpan r.file, r.directivesOn (p.blockOf f.1)⟩).filter fun f => !f.directives.isEmpty := by
  have hfree : (p.freeLines.flatMap fun n => (r.free n).functions) = [] := by simp [Reading.free]
  rw [ofReading_eq_flatMap r p (·.functions) rfl fun _ _ => rfl, hfree, List.append_nil, List.filter_map,
    List.filter_filter]
  simp only [Reading.function_eq]
  rw [flatMap_ite]
  simp only [Function.comp_def, Bool.and_comm]

theorem fileMocks_ofReading : (ofReading r p).fileMocks = (r.directivesOn p.freeLines).filter (·.kind == .mock) := by
  rw [ofReading_eq_flatMap r p (·.fileMocks) rfl fun _ _ => rfl, Reading.directivesOn, List.filter_flatMap]
  simp [Reading.function_eq, Reading.free]

theorem diagnostics_ofReading : (ofReading r p).diagnostics.Perm ((r.errorsOn p.parsedLines ++
    (p.topFunctions.filter fun f => f.2 && !(r.directivesOn (p.blockOf f.1)).isEmpty).map r.unanalyzed) ++
      (r.unowned p).map Reading.ignored) := by
  have howned : (p.topFunctions.flatMap fun f => (r.function p f.1 f.2).diagnostics).Perm
      ((p.topFunctions.flatMap fun f => r.errorsOn (p.blockOf f.1)) ++
        (p.topFunctions.filter fun f => f.2 && !(r.directivesOn (p.blockOf f.1)).isEmpty).map r.unanalyzed) := by
    simp only [Reading.function_eq]
    rw [← flatMap_ite]
    exact (List.flatMap_append_perm _ _ _).symm
  have hfree : (p.freeLines.flatMap fun n => (r.free n).diagnostics).Perm
      (r.errorsOn p.freeLines ++ (r.unowned p).map Reading.ignored) := by
    rw [Reading.unowned, Reading.directivesOn, List.filter_flatMap, List.map_flatMap]
    exact (List.flatMap_append_perm _ _ _).symm
  have hlines : r.errorsOn p.parsedLines =
      (p.topFunctions.flatMap fun f => r.errorsOn (p.blockOf f.1)) ++ r.errorsOn p.freeLines := p.flatMap_parsedLines _
  rw [ofReading_eq_flatMap r p (·.diagnostics) rfl fun _ _ => rfl, hlines]
  apply (howned.append hfree).trans
  simp only [List.append_assoc]
  exact List.perm_append_comm_assoc _ _ _ |>.append_left _

theorem directives_ofReading :
    (((ofReading r p).functions.flatMap (·.directives) ++ r.dropped p) ++ ((ofReading r p).fileMocks ++ r.unowned p)).Perm
      (r.directivesOn p.parsedLines) := by
  have hfunctions : (ofReading r p).functions.flatMap (·.directives) =
      (p.topFunctions.filter (!·.2)).flatMap fun f => r.directivesOn (p.blockOf f.1) := by
    rw [functions_ofReading, flatMap_filter_nonempty, List.flatMap_map]
  have hlines : r.directivesOn p.parsedLines =
      (p.topFunctions.flatMap fun f => r.directivesOn (p.blockOf f.1)) ++ r.directivesOn p.freeLines :=
    p.flatMap_parsedLines _
  rw [hfunctions, fileMocks_ofReading, Reading.dropped, Reading.unowned, ← List.flatMap_append, hlines]
  apply List.Perm.append
  · apply List.Perm.flatMap_right
    exact List.perm_append_comm.trans (List.filter_append_perm _ _)
  · exact List.filter_append_perm _ _

end

theorem accounts_ofReading (r : Reading) (p : Program) : Accounts r p (ofReading r p) where
  functions := functions_ofReading r p
  directives := directives_ofReading r p
  fileMocks d hd := by
    rw [fileMocks_ofReading] at hd
    simpa using (List.mem_filter.mp hd).2
  diagnostics := diagnostics_ofReading r p

/-- Let the functions of a program follow each other. The lines that are read are the comment lines and those of the
docstrings of functions, those of a function in order, and everything on them is accounted for each time that they are
read. They are read once if and only if a line that is no comment line stands between the block of a function and the
functions after it; this is so if the first lines of functions and the lines of docstrings are no comment lines. -/
theorem directives_accounted_once_iff (p : Program) (h : p.Placed) (text file : String) :
    (∀ n, n ∈ p.parsedLines ↔ n ∈ p.commentLines ∨ ∃ f ∈ p.topFunctions, n ∈ f.1.docstringLines) ∧
    (∀ f ∈ p.topFunctions, (p.blockOf f.1).Pairwise (· < ·)) ∧
    Accounts (.ofText text file) p (ofProgram p text file) ∧
    (p.parsedLines.Nodup ↔ p.Separated) ∧
    ((∀ f ∈ p.topFunctions, ∀ n ∈ f.1.firstLine :: f.1.docstringLines, n ∉ p.commentLines) → p.Separated) :=
  ⟨p.mem_parsedLines, fun _ hf => h.pairwise_blockOf hf, accounts_ofReading _ p, h.nodup_iff,
    fun hcode => Program.separated_of_code hcode h⟩

def carriageReturns : Program where
  body := [
    .function ⟨⟨3, 0, 4, 20⟩, "f", {},
      [.expr ⟨4, 4, 4, 20⟩ (.constant ⟨4, 4, 4, 20⟩ (.scalar (.string "@nudo:pure")))], [], []⟩,
    .function ⟨⟨5, 0, 5, 13⟩, "g", {}, [.other ⟨5, 9, 5, 13⟩ [] []], [], []⟩]
  comments := [⟨4, ""⟩]

def carriageReturnsText : String := "\r\rdef f():\n    \"\"\"@nudo:pure\"\"\"\ndef g(): pass\n# end\n"

theorem carriageReturns_accounts_twice :
    carriageReturns.parsedLines = [4, 4] ∧ ¬ carriageReturns.Separated ∧
      (ofProgram carriageReturns carriageReturnsText "f").functions.map (fun f => (f.name, f.directives.length)) =
        [("f", 1), ("g", 1)] := by
  have hplaced : carriageReturns.Placed := ⟨by decide, by decide, by decide⟩
  have hread : carriageReturns.parsedLines = [4, 4] := by decide
  obtain ⟨_, _, _, honce, _⟩ := directives_accounted_once_iff carriageReturns hplaced carriageReturnsText "f"
  refine ⟨hread, fun hs => ?_, by decide +kernel⟩
  have hnodup := honce.mpr hs
  rw [hread] at hnodup
  exact absurd hnodup (by decide)

end Annotations

end Casewise
