import Casewise.Directive.Token
import Mathlib.Data.List.Basic

/-!
The lexer is local: a step looks at no character that could matter beyond the end of its token. So a piece of text
that starts with a token and ends with one has the tokens that the whole text has there.
-/

namespace Casewise

def Token.moved (t : Token) (distance : Int) : Token := { t with first := t.first + distance, last := t.last + distance }

namespace Lexer

section

variable {α : Type} {p : α → Bool} {as : List α} {n : Nat}

theorem takeWhile_take (h : (as.takeWhile p).length ≤ n) : (as.take n).takeWhile p = as.takeWhile p := by
  induction as generalizing n with
  | nil => simp
  | cons a as ih =>
    by_cases ha : p a = true
    · simp only [List.takeWhile_cons, ha, if_true, List.length_cons] at h
      obtain ⟨m, rfl⟩ : ∃ m, n = m + 1 := ⟨n - 1, by omega⟩
      simpa [ha] using ih (n := m) (by omega)
    · cases n <;> simp [ha]

theorem dropWhile_take (h : (as.takeWhile p).length ≤ n) :
    (as.take n).dropWhile p = (as.dropWhile p).take (n - (as.takeWhile p).length) := by
  apply (List.append_right_inj (as.takeWhile p)).mp
  calc as.takeWhile p ++ (as.take n).dropWhile p
    _ = as.take n := by rw [← takeWhile_take h, List.takeWhile_append_dropWhile]
    _ = (as.takeWhile p ++ as.dropWhile p).take n := by rw [List.takeWhile_append_dropWhile]
    _ = as.takeWhile p ++ (as.dropWhile p).take (n - (as.takeWhile p).length) := by
      rw [List.take_append, List.take_of_length_le h]

end

variable {c quote : Char} {cs rest : List Char} {n : Nat}

theorem quotedText_cons (hc : c ≠ '\\') : quotedText quote (c :: rest) =
    if c = quote then ([], 1, true)
    else (c :: (quotedText quote rest).1, (quotedText quote rest).2.1 + 1, (quotedText quote rest).2.2) := by
  rw [quotedText]
  · exact fun h => absurd h hc
  · exact fun _ _ h => absurd h hc

theorem quotedText_escape : quotedText quote ('\\' :: c :: rest) =
    (unescape c :: (quotedText quote rest).1, (quotedText quote rest).2.1 + 2, (quotedText quote rest).2.2) := by
  rw [quotedText]

theorem ne_backslash (h₁ : c = '\\' → rest = [] → False) (h₂ : ∀ d r, c = '\\' → rest = d :: r → False) :
    c ≠ '\\' := by
  intro hc
  cases rest with
  | nil => exact h₁ hc rfl
  | cons d r => exact h₂ d r hc rfl

theorem quotedText_take (hclosed : (quotedText quote cs).2.2 = true) (hn : (quotedText quote cs).2.1 ≤ n) :
    quotedText quote (cs.take n) = quotedText quote cs := by
  induction cs using quotedText.induct quote generalizing n with
  | case1 => simp
  | case2 => simp [quotedText] at hclosed
  | case3 c rest _ _ _ _ ih =>
    simp only [quotedText_escape] at hclosed hn
    obtain ⟨m, rfl⟩ : ∃ m, n = m + 2 := ⟨n - 2, by omega⟩
    rw [List.take_succ_cons, List.take_succ_cons, quotedText_escape, quotedText_escape, ih hclosed (by omega)]
  | case4 rest h₁ h₂ =>
    simp only [quotedText_cons (ne_backslash h₁ h₂), if_true] at hn
    obtain ⟨m, rfl⟩ : ∃ m, n = m + 1 := ⟨n - 1, by omega⟩
    simp only [List.take_succ_cons, quotedText_cons (ne_backslash h₁ h₂), if_true]
  | case5 c rest h₁ h₂ hq _ _ _ _ ih =>
    have hc := ne_backslash h₁ h₂
    simp only [quotedText_cons hc, hq, if_false] at hclosed hn
    obtain ⟨m, rfl⟩ : ∃ m, n = m + 1 := ⟨n - 1, by omega⟩
    simp only [List.take_succ_cons, quotedText_cons hc, ih hclosed (by omega : _ ≤ m)]

theorem quotedText_le (quote : Char) (cs : List Char) : (quotedText quote cs).2.1 ≤ cs.length := by
  induction cs using quotedText.induct quote with
  | case1 => simp [quotedText]
  | case2 => simp [quotedText]
  | case3 c rest _ _ _ _ ih => simpa [quotedText_escape] using ih
  | case4 rest h₁ h₂ => simp [quotedText_cons (ne_backslash h₁ h₂)]
  | case5 c rest h₁ h₂ hq _ _ _ _ ih => simpa [quotedText_cons (ne_backslash h₁ h₂), hq] using ih

structure Local (f : List Char → List Char) : Prop where
  length_le : ∀ cs, (f cs).length ≤ cs.length
  take : ∀ {cs n}, (f cs).length ≤ n → f (cs.take n) = f cs

theorem local_of_pair {f : List Char → List Char} (test : Char → Char → List Char → Bool)
    (hnil : f [] = []) (hone : ∀ a, f [a] = [])
    (hpair : ∀ a b rest, f (a :: b :: rest) =
      if test a b rest = true then a :: b :: rest.takeWhile Text.isDigit else [])
    (htest : ∀ a b rest m, (test a b rest = true → (rest.takeWhile Text.isDigit).length ≤ m) →
      test a b (rest.take m) = test a b rest) : Local f := by
  have hshort (a b : Char) (rest : List Char) (h : (f (a :: b :: rest)).length < 2) : f (a :: b :: rest) = [] := by
    rw [hpair] at h ⊢
    split
    · next ht =>
      simp only [ht, if_true, List.length_cons] at h
      omega
    · rfl
  constructor
  · intro cs
    match cs with
    | [] => simp [hnil]
    | [a] => simp [hone]
    | a :: b :: rest =>
      rw [hpair]
      split
      · simpa using (List.takeWhile_sublist Text.isDigit).length_le
      · simp
  intro cs n hn
  match cs, n with
  | [], _ => rw [List.take_nil]
  | [a], 0 => rw [hone, List.take_zero, hnil]
  | [a], n + 1 => rw [List.take_succ_cons, List.take_nil]
  | a :: b :: rest, 0 => rw [hshort a b rest (by omega), List.take_zero, hnil]
  | a :: b :: rest, 1 => rw [hshort a b rest (by omega), List.take_succ_cons, List.take_zero, hone]
  | a :: b :: rest, m + 2 =>
    have hlen (ht : test a b rest = true) : (rest.takeWhile Text.isDigit).length ≤ m := by
      rw [hpair, if_pos ht] at hn
      simpa using hn
    rw [List.take_succ_cons, List.take_succ_cons, hpair, hpair, htest a b rest m hlen]
    split
    · next ht => rw [takeWhile_take (hlen ht)]
    · rfl

theorem local_fraction : Local fraction := by
  refine local_of_pair (fun a b _ => a == '.' && Text.isDigit b) rfl (fun a => ?_) (fun a b rest => ?_)
    fun _ _ _ _ _ => rfl
  · simp [fraction]
  · unfold fraction
    split
    · next d us he =>
      obtain ⟨rfl, rfl, rfl⟩ : a = '.' ∧ b = d ∧ rest = us := by simpa using he
      by_cases hb : Text.isDigit b = true <;> simp [hb]
    · next h =>
      rw [if_neg]
      rw [Bool.and_eq_true, beq_iff_eq]
      rintro ⟨rfl, _⟩
      exact h b rest rfl

theorem local_exponent : Local exponent := by
  refine local_of_pair (fun a b rest => (a == 'e' || a == 'E') &&
    (Text.isDigit b || (b == '+' || b == '-') && rest.head?.any Text.isDigit))
    rfl (fun _ => rfl) (fun a b rest => ?_) ?_
  · unfold exponent
    by_cases ha : (a == 'e' || a == 'E') = true
    · by_cases hb : Text.isDigit b = true <;> simp [ha, hb]
    · simp [ha]
  · intro a b rest m h
    -- only a digit after a sign is looked at, and then it belongs to the exponent
    match rest, m with
    | [], _ => simp
    | d :: rest, m + 1 => rfl
    | d :: rest, 0 =>
      by_cases ha : (a == 'e' || a == 'E') = true
      · by_cases hs : ((b == '+' || b == '-') && Text.isDigit d) = true
        · have hd := (Bool.and_eq_true_iff.mp hs).2
          simpa [hd] using h (by simp [ha, hs])
        · simp [ha, hs]
      · simp [ha]

theorem numeral_eq (cs : List Char) : numeral cs = cs.takeWhile isNumeralChar ++
    (fraction (cs.dropWhile isNumeralChar) ++
      exponent ((cs.dropWhile isNumeralChar).drop (fraction (cs.dropWhile isNumeralChar)).length)) := by
  rw [numeral, List.append_assoc]

theorem local_numeral : Local numeral := by
  constructor
  · intro cs
    have hwhole := congrArg List.length (List.takeWhile_append_dropWhile (p := isNumeralChar) (l := cs))
    have hpoint := local_fraction.length_le (cs.dropWhile isNumeralChar)
    have hexponent := local_exponent.length_le
      ((cs.dropWhile isNumeralChar).drop (fraction (cs.dropWhile isNumeralChar)).length)
    simp only [numeral_eq, List.length_append, List.length_drop] at hwhole hexponent ⊢
    omega
  · intro cs n hn
    simp only [numeral_eq, List.length_append] at hn ⊢
    rw [takeWhile_take (by omega), dropWhile_take (by omega), local_fraction.take (by omega), List.drop_take,
      local_exponent.take (by omega)]

theorem numeral_point {d : Char} (rest : List Char) (hd : Text.isDigit d = true) :
    2 ≤ (numeral ('.' :: d :: rest)).length := by
  have hpoint : isNumeralChar '.' = false := by decide
  simp [numeral_eq, hpoint, fraction, hd]

theorem startsNumber_take (hn : startsNumber c rest = true → (numeral (c :: rest)).length - 1 ≤ n) :
    startsNumber c (rest.take n) = startsNumber c rest := by
  match rest, n with
  | [], _ => simp
  | d :: rest, n + 1 => rfl
  | d :: rest, 0 =>
    by_cases hc : Text.isDigit c = true
    · simp [startsNumber, hc]
    by_cases hp : c = '.' ∧ Text.isDigit d = true
    · obtain ⟨rfl, hd⟩ := hp
      have := hn (by simp [startsNumber, hd])
      have := numeral_point rest hd
      omega
    · simpa [startsNumber, hc] using hp

theorem step_eq (c : Char) (rest : List Char) : step c rest =
    if (c == ' ' || c == '\t') = true then ⟨.blank, 0⟩
    else if (c == '"' || c == '\'') = true then
      if (quotedText c rest).2.2 = true then ⟨.token .string (quotedText c rest).1, (quotedText c rest).2.1⟩
      else ⟨.error .unterminated, (quotedText c rest).2.1⟩
    else if startsNumber c rest = true then ⟨.token .number (numeral (c :: rest)), (numeral (c :: rest)).length - 1⟩
    else if (Text.isLetter c || c == '_') = true then
      ⟨.token .identifier (c :: rest.takeWhile Text.isWordChar), (rest.takeWhile Text.isWordChar).length⟩
    else ((TokenKind.ofPunctuation? c).map fun kind => (⟨.token kind [c], 0⟩ : Step)).getD
      ⟨.error (.unexpected c), 0⟩ := by
  unfold step
  cases TokenKind.ofPunctuation? c <;> rfl

theorem step_extra_le (c : Char) (rest : List Char) : (step c rest).extra ≤ rest.length := by
  rw [step_eq]
  split
  · exact Nat.zero_le _
  split
  · split <;> exact quotedText_le c rest
  split
  · have := local_numeral.length_le (c :: rest)
    rw [List.length_cons] at this
    exact Nat.sub_le_of_le_add this
  split
  · exact (List.takeWhile_sublist _).length_le
  · cases TokenKind.ofPunctuation? c <;> exact Nat.zero_le _

theorem step_take (hf : ∀ e, (step c rest).finding ≠ .error e) (hn : (step c rest).extra ≤ n) :
    step c (rest.take n) = step c rest := by
  rw [step_eq c rest] at hf hn ⊢
  rw [step_eq]
  by_cases hb : (c == ' ' || c == '\t') = true
  · rw [if_pos hb, if_pos hb]
  rw [if_neg hb] at hf hn
  rw [if_neg hb, if_neg hb]
  by_cases hq : (c == '"' || c == '\'') = true
  · rw [if_pos hq] at hf hn
    by_cases hclosed : (quotedText c rest).2.2 = true
    · rw [if_pos hclosed] at hn
      rw [quotedText_take hclosed hn, if_pos hq, if_pos hq]
    · rw [if_neg hclosed] at hf
      exact absurd rfl (hf .unterminated)
  rw [if_neg hq] at hn
  rw [if_neg hq, if_neg hq]
  have hs : startsNumber c (rest.take n) = startsNumber c rest := by
    apply startsNumber_take
    intro hs
    rwa [if_pos hs] at hn
  rw [hs]
  by_cases hs : startsNumber c rest = true
  · rw [if_pos hs] at hn
    have hnumeral : numeral ((c :: rest).take (n + 1)) = _ := local_numeral.take (Nat.sub_le_iff_le_add.mp hn)
    rw [List.take_succ_cons] at hnumeral
    rw [if_pos hs, if_pos hs, hnumeral]
  rw [if_neg hs] at hn
  rw [if_neg hs, if_neg hs]
  by_cases hw : (Text.isLetter c || c == '_') = true
  · rw [if_pos hw] at hn
    rw [if_pos hw, if_pos hw, takeWhile_take hn]
  · rw [if_neg hw, if_neg hw]

inductive Lexes : Int → List Char → List Token → Prop
  | nil {col : Int} : Lexes col [] []
  | blank {col : Int} {c : Char} {rest : List Char} {ts : List Token} (h : (step c rest).finding = .blank)
      (tail : Lexes (col + (step c rest).extra + 1) (rest.drop (step c rest).extra) ts) : Lexes col (c :: rest) ts
  | token {col : Int} {c : Char} {rest : List Char} {kind : TokenKind} {text : List Char} {ts : List Token}
      (h : (step c rest).finding = .token kind text)
      (tail : Lexes (col + (step c rest).extra + 1) (rest.drop (step c rest).extra) ts) :
      Lexes col (c :: rest) (⟨kind, String.ofList text, col, col + (step c rest).extra⟩ :: ts)

variable {col : Int} {t : Token} {ts before after : List Token}

theorem lex_cons : lex col (c :: rest) = (step c rest).finding.record col (step c rest).extra
    (lex (col + (step c rest).extra + 1) (rest.drop (step c rest).extra)) := by
  rw [lex]

theorem stop_record {tail : Lexed} (f : Finding) : (f.record col n tail).stop = tail.stop := by
  cases f <;> rfl

theorem stop_lex (col : Int) (cs : List Char) : (lex col cs).stop = col + cs.length := by
  induction col, cs using lex.induct with
  | case1 => simp [lex]
  | case2 col c rest s ih =>
    have := step_extra_le c rest
    rw [lex_cons, stop_record, ih, List.length_drop, List.length_cons]
    dsimp only [s]
    omega

theorem lexes_lex (h : (lex col cs).errors = []) : Lexes col cs (lex col cs).tokens := by
  induction col, cs using lex.induct with
  | case1 => simpa [lex] using Lexes.nil
  | case2 col c rest s ih =>
    rw [lex_cons] at h ⊢
    cases hf : (step c rest).finding with
    | blank =>
      rw [hf] at h
      exact .blank hf (ih h)
    | token kind text =>
      rw [hf] at h
      exact .token hf (ih h)
    | error e =>
      rw [hf] at h
      cases h

theorem Lexes.lex_eq (h : Lexes col cs ts) : lex col cs = ⟨ts, [], col + cs.length⟩ := by
  have hparts : (lex col cs).tokens = ts ∧ (lex col cs).errors = [] := by
    induction h with
    | nil => simp [lex]
    | blank h _ ih => rwa [lex_cons, h]
    | token h _ ih => exact ⟨by simp [lex_cons, h, Finding.record, ih.1], by simp [lex_cons, h, Finding.record, ih.2]⟩
  rw [← stop_lex, ← hparts.1, ← hparts.2]

theorem Lexes.bounds (h : Lexes col cs ts) : ∀ t ∈ ts, col ≤ t.first ∧ t.first ≤ t.last ∧ t.last < col + cs.length := by
  induction h with
  | nil => simp
  | @blank col c rest ts _ _ ih =>
    intro t ht
    have := ih t ht
    have := step_extra_le c rest
    rw [List.length_drop] at *
    rw [List.length_cons]
    omega
  | @token col c rest kind text ts _ _ ih =>
    have := step_extra_le c rest
    refine List.forall_mem_cons.mpr ⟨?_, fun t ht => ?_⟩
    · rw [List.length_cons]
      dsimp only
      omega
    · have := ih t ht
      rw [List.length_drop] at this
      rw [List.length_cons]
      omega

theorem Lexes.ordered (h : Lexes col cs ts) : ts.Pairwise fun a b => a.last < b.first := by
  induction h with
  | nil => exact .nil
  | blank _ _ ih => exact ih
  | token _ tail ih =>
    refine .cons (fun t ht => ?_) ih
    have := (tail.bounds t ht).1
    dsimp only
    omega

theorem drop_past (e : Nat) {p : Int} (hp : col + e + 1 ≤ p) :
    (c :: rest).drop (p - col).toNat = (rest.drop e).drop (p - (col + e + 1)).toNat := by
  obtain ⟨m, hm⟩ : ∃ m, (p - col).toNat = m + 1 := ⟨(p - col).toNat - 1, by omega⟩
  rw [hm, List.drop_succ_cons, List.drop_drop]
  congr 1
  omega

theorem Lexes.drop (h : Lexes col cs (before ++ t :: after)) :
    Lexes t.first (cs.drop (t.first - col).toNat) (t :: after) := by
  generalize hts : before ++ t :: after = ts at h
  induction h generalizing before with
  | nil => simp at hts
  | blank hf tail ih =>
    rw [drop_past _ (tail.bounds t (by simp [← hts])).1]
    exact ih hts
  | token hf tail ih =>
    cases before with
    | nil =>
      obtain ⟨rfl, rfl⟩ := List.cons.inj hts
      simpa using tail.token hf
    | cons b before =>
      have hts := (List.cons.inj hts).2
      rw [drop_past _ (tail.bounds t (by simp [← hts])).1]
      exact ih hts

section

variable {p : Int} (hp : col + (step c rest).extra + 1 ≤ p)

include hp

theorem take_past (hf : ∀ e, (step c rest).finding ≠ .error e) :
    ∃ rest', (c :: rest).take (p - col).toNat = c :: rest' ∧ step c rest' = step c rest ∧
      rest'.drop (step c rest).extra =
        (rest.drop (step c rest).extra).take (p - (col + (step c rest).extra + 1)).toNat := by
  obtain ⟨m, hm⟩ : ∃ m, (p - col).toNat = m + 1 := ⟨(p - col).toNat - 1, by omega⟩
  refine ⟨rest.take m, by rw [hm, List.take_succ_cons], step_take hf (by omega), ?_⟩
  rw [List.drop_take]
  congr 1
  omega

variable (tail : Lexes (col + (step c rest).extra + 1)
  ((rest.drop (step c rest).extra).take (p - (col + (step c rest).extra + 1)).toNat) ts)

include tail

theorem Lexes.blank_take (hf : (step c rest).finding = .blank) : Lexes col ((c :: rest).take (p - col).toNat) ts := by
  obtain ⟨rest', hcs, hstep, hrest⟩ := take_past hp (by simp [hf])
  rw [hcs]
  rw [← hrest, ← hstep] at tail
  exact tail.blank (by rw [hstep, hf])

theorem Lexes.token_take {kind : TokenKind} {text : List Char} (hf : (step c rest).finding = .token kind text) :
    Lexes col ((c :: rest).take (p - col).toNat)
      (⟨kind, String.ofList text, col, col + (step c rest).extra⟩ :: ts) := by
  obtain ⟨rest', hcs, hstep, hrest⟩ := take_past hp (by simp [hf])
  rw [hcs, ← hstep]
  rw [← hrest, ← hstep] at tail
  exact tail.token (by rw [hstep, hf])

end

theorem Lexes.take (h : Lexes col cs (before ++ t :: after)) :
    Lexes col (cs.take (t.last + 1 - col).toNat) (before ++ [t]) := by
  generalize hts : before ++ t :: after = ts at h
  induction h generalizing before with
  | nil => simp at hts
  | blank hf tail ih =>
    have hlater := tail.bounds t (by simp [← hts])
    exact (ih hts).blank_take (by omega) hf
  | @token col c rest kind text ts hf tail ih =>
    cases before with
    | nil =>
      obtain ⟨rfl, rfl⟩ := List.cons.inj hts
      refine Lexes.token_take (Int.le_refl _) ?_ hf
      simpa using Lexes.nil
    | cons b before =>
      obtain ⟨rfl, htail⟩ := List.cons.inj hts
      have hlater := tail.bounds t (by simp [← htail])
      exact (ih htail).token_take (by omega) hf

theorem Lexes.slice {first last : Token} {g : List Token} (h : Lexes col cs ts) (hg : g <:+: ts)
    (hfirst : g.head? = some first) (hlast : g.getLast? = some last) :
    Lexes first.first ((cs.drop (first.first - col).toNat).take (last.last - first.first + 1).toNat) g := by
  obtain ⟨before, after, rfl⟩ := hg
  obtain ⟨init, rfl⟩ : ∃ init, g = init ++ [last] := List.getLast?_eq_some_iff.mp hlast
  obtain ⟨tail, htail⟩ := List.head?_eq_some_iff.mp hfirst
  have hdrop : Lexes first.first (cs.drop (first.first - col).toNat) (init ++ last :: after) := by
    have hts : before ++ (init ++ [last]) ++ after = before ++ first :: (tail ++ after) := by
      rw [htail, List.append_assoc, List.cons_append]
    rw [hts] at h
    have hg : first :: (tail ++ after) = init ++ last :: after := by
      rw [← List.cons_append, ← htail, List.append_assoc, List.singleton_append]
    rw [← hg]
    exact h.drop
  rw [show last.last - first.first + 1 = last.last + 1 - first.first by omega]
  exact hdrop.take

theorem Lexes.filter_columns {first last : Token} {g : List Token} (h : Lexes col cs ts) (hg : g <:+: ts)
    (hfirst : g.head? = some first) (hlast : g.getLast? = some last) :
    (ts.filter fun t => first.first ≤ t.first ∧ t.last ≤ last.last) = g := by
  have hslice := (h.slice hg hfirst hlast).bounds
  obtain ⟨before, after, rfl⟩ := hg
  have hfirst' := List.mem_of_mem_head? hfirst
  have hlast' := List.mem_of_mem_getLast? hlast
  obtain ⟨hordered, _, hafter⟩ := List.pairwise_append.mp h.ordered
  obtain ⟨_, _, hbefore⟩ := List.pairwise_append.mp hordered
  have hbounds (t : Token) (ht : t ∈ before ++ g ++ after) : t.first ≤ t.last := (h.bounds t ht).2.1
  rw [List.filter_append, List.filter_append, List.filter_eq_nil_iff.mpr, List.filter_eq_self.mpr,
    List.filter_eq_nil_iff.mpr]
  · simp
  · intro t ht
    have := hafter last (by simp [hlast']) t ht
    have := hbounds t (by simp [ht])
    simp only [decide_eq_true_eq, not_and]
    omega
  · intro t ht
    have := hslice t ht
    rw [List.length_take] at this
    simp only [decide_eq_true_eq]
    omega
  · intro t ht
    have := hbefore t ht first hfirst'
    have := hbounds t (by simp [ht])
    simp only [decide_eq_true_eq, not_and]
    omega

theorem Lexes.moved (h : Lexes col cs ts) (d : Int) : Lexes (col + d) cs (ts.map (·.moved d)) := by
  induction h with
  | nil => exact .nil
  | @blank col c rest ts hs _ ih =>
    rw [show col + (step c rest).extra + 1 + d = col + d + (step c rest).extra + 1 by omega] at ih
    exact .blank hs ih
  | @token col c rest kind text ts hs _ ih =>
    rw [show col + (step c rest).extra + 1 + d = col + d + (step c rest).extra + 1 by omega] at ih
    rw [List.map_cons, Token.moved, show col + (step c rest).extra + d = col + d + (step c rest).extra by omega]
    exact .token hs ih

end Lexer

end Casewise
