import Casewise.Proofs.Lexing

namespace Casewise

def Token.slice (t : Token) (col : Int) (cs : List Char) : List Char :=
  (cs.drop (t.first - col).toNat).take (t.last - t.first + 1).toNat

namespace Lexer

def Blank (c : Char) : Prop := c = ' ' ∨ c = '\t'

variable {c : Char} {cs rest : List Char} {col : Int} {ts : List Token}

def Fails (cause : LexError) (c : Char) (rest : List Char) : Prop :=
  (cause = .unterminated ∧ (c = '"' ∨ c = '\'') ∧ (quotedText c rest).2.2 = false) ∨
    (cause = .unexpected c ∧ ¬ Blank c ∧ c ≠ '"' ∧ c ≠ '\'' ∧ c ≠ '_' ∧ Text.isDigit c = false ∧
      Text.isLetter c = false ∧ TokenKind.ofPunctuation? c = none)

def Finding.Tells (c : Char) (rest : List Char) : Finding → Prop
  | .blank => Blank c
  | .token _ _ => ¬ Blank c
  | .error cause => Fails cause c rest

theorem step_of_blank (h : Blank c) : step c rest = ⟨.blank, 0⟩ := by
  rcases h with rfl | rfl <;> rfl

theorem step_tells (c : Char) (rest : List Char) : (step c rest).finding.Tells c rest := by
  by_cases hc : Blank c
  · rw [step_of_blank hc]
    exact hc
  have hb : ¬ (c == ' ' || c == '\t') = true := by
    simpa [Blank] using hc
  rw [step_eq, if_neg hb]
  split
  · next hq =>
    split
    · exact hc
    · next hopen => exact .inl ⟨rfl, by simpa using hq, by simpa using hopen⟩
  next hq =>
  split
  · exact hc
  next hn =>
  split
  · exact hc
  next hl =>
  cases hp : TokenKind.ofPunctuation? c with
  | some kind => exact hc
  | none =>
    simp only [startsNumber, Bool.or_eq_true, beq_iff_eq, not_or, Bool.not_eq_true] at hq hn hl
    exact .inr ⟨rfl, hc, hq.1, hq.2, hl.2, hn.1, hl.1, hp⟩

theorem fails_of_mem_errors {e : LexError × Int} (h : e ∈ (lex col cs).errors) :
    ∃ (i : Nat) (c : Char), cs[i]? = some c ∧ e.2 = col + i ∧ Fails e.1 c (cs.drop (i + 1)) := by
  induction col, cs using lex.induct with
  | case1 => simp [lex] at h
  | case2 col c rest s ih =>
    have hlater (ht : e ∈ (lex (col + s.extra + 1) (rest.drop s.extra)).errors) :
        ∃ (i : Nat) (d : Char), (c :: rest)[i]? = some d ∧ e.2 = col + i ∧ Fails e.1 d ((c :: rest).drop (i + 1)) := by
      obtain ⟨i, d, hd, he, hf⟩ := ih ht
      rw [List.getElem?_drop] at hd
      rw [List.drop_drop] at hf
      exact ⟨s.extra + i + 1, d, hd, by omega, hf⟩
    have htells := step_tells c rest
    rw [lex_cons] at h
    cases hs : (step c rest).finding with
    | error cause =>
      rw [hs] at h htells
      rcases List.mem_cons.mp h with rfl | h
      · exact ⟨0, c, rfl, by simp, htells⟩
      · exact hlater h
    | _ =>
      rw [hs] at h
      exact hlater h

theorem Lexes.blank_between (h : Lexes col cs ts) {i : Nat} (hi : cs[i]? = some c)
    (hout : ∀ t ∈ ts, col + i < t.first ∨ t.last < col + i) : Blank c := by
  induction h generalizing i with
  | nil => cases hi
  | @blank col d rest ts hs _ ih =>
    have hd := step_tells d rest
    rw [hs] at hd
    cases i with
    | zero => exact Option.some.inj hi ▸ hd
    | succ i =>
      have hextra : (step d rest).extra = 0 := by rw [step_of_blank hd]
      rw [hextra] at ih
      refine ih (i := i) hi fun t ht => ?_
      have := hout t ht
      omega
  | @token col d rest kind text ts hs _ ih =>
    obtain ⟨hown, hlater⟩ := List.forall_mem_cons.mp hout
    dsimp only at hown
    obtain ⟨j, rfl⟩ : ∃ j, i = (step d rest).extra + j + 1 := ⟨i - (step d rest).extra - 1, by omega⟩
    refine ih (i := j) ?_ fun t ht => ?_
    · rwa [List.getElem?_drop]
    · have := hlater t ht
      omega

theorem Lexes.relex (h : Lexes col cs ts) {t : Token} (ht : t ∈ ts) (start : Int) :
    lex start (t.slice col cs) = ⟨[t.moved (start - t.first)], [], start + (t.last - t.first + 1)⟩ := by
  have hslice : Lexes t.first (t.slice col cs) [t] := by
    obtain ⟨before, after, rfl⟩ := List.append_of_mem ht
    exact h.slice ⟨before, after, by simp⟩ rfl rfl
  have hlength : ((t.slice col cs).length : Int) = t.last - t.first + 1 := by
    have := h.bounds t ht
    rw [Token.slice, List.length_take, List.length_drop]
    omega
  have hmoved := (hslice.moved (start - t.first)).lex_eq
  rw [show t.first + (start - t.first) = start by omega, hlength] at hmoved
  exact hmoved

/-- Lexing reads a text to its end, and fails only at characters that start no token. If it does not fail, then the
tokens are in the text, in order and apart, the characters outside of them are blank, and the characters of each token
alone give this token and nothing else, whatever column they are lexed in. -/
theorem lex_loses_nothing (col : Int) (cs : List Char) :
    (lex col cs).stop = col + cs.length ∧
    (∀ e ∈ (lex col cs).errors,
      ∃ (i : Nat) (c : Char), cs[i]? = some c ∧ e.2 = col + i ∧ Fails e.1 c (cs.drop (i + 1))) ∧
    ((lex col cs).errors = [] →
      (∀ t ∈ (lex col cs).tokens, col ≤ t.first ∧ t.first ≤ t.last ∧ t.last < col + cs.length) ∧
      ((lex col cs).tokens.Pairwise fun a b => a.last < b.first) ∧
      (∀ (i : Nat) (c : Char), cs[i]? = some c →
        (∀ t ∈ (lex col cs).tokens, col + i < t.first ∨ t.last < col + i) → Blank c) ∧
      ∀ t ∈ (lex col cs).tokens, ∀ start : Int,
        lex start (t.slice col cs) = ⟨[t.moved (start - t.first)], [], start + (t.last - t.first + 1)⟩) := by
  refine ⟨stop_lex col cs, fun e he => fails_of_mem_errors he, fun h => ?_⟩
  have hlexes := lexes_lex h
  exact ⟨hlexes.bounds, hlexes.ordered, fun i c hi => hlexes.blank_between hi, fun t ht => hlexes.relex ht⟩

def mixedText : List Char := "f(1_0.5e-3,\t.5 , 'it\\'s')".toList

theorem mixedText_loses_nothing :
    (lex 7 mixedText).errors = [] ∧
      (lex 7 mixedText).tokens.map (·.text) = ["f", "(", "1_0.5e-3", ",", ".5", ",", "it's", ")"] ∧
      ∀ t ∈ (lex 7 mixedText).tokens, ∀ start : Int, lex start (t.slice 7 mixedText) =
        ⟨[t.moved (start - t.first)], [], start + (t.last - t.first + 1)⟩ := by
  have herrors : (lex 7 mixedText).errors = [] := by decide +kernel
  exact ⟨herrors, by decide +kernel, ((lex_loses_nothing 7 mixedText).2.2 herrors).2.2.2⟩

end Lexer

end Casewise
