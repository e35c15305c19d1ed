import Casewise.Directive.Tag
import Casewise.Proofs.DirectiveGrammar
import Casewise.Proofs.Lexing
import Mathlib.Data.List.Infix

/-!
Arguments are read in two stages: the directive keeps their texts, which are lexed again when they are evaluated. The
text of an argument is the piece of the line within the columns of its span, and lexing it there gives the tokens that
the directive had there.
-/

namespace Casewise

namespace Tag

variable {position : Nat} {cs : List Char} {t : Tag}

theorem split_of_name {c : Char} {name : List Char} (h : name? (c :: cs) = some name) : split position (c :: cs) =
    ([], ⟨position, name, (split (position + 1) cs).1.drop (mark.length - 1 + name.length)⟩ ::
      (split (position + 1) cs).2) := by
  simp only [split, h]

theorem split_of_none {c : Char} (h : name? (c :: cs) = none) : split position (c :: cs) =
    (c :: (split (position + 1) cs).1, (split (position + 1) cs).2) := by
  simp only [split, h]

theorem split_spec (position : Nat) (cs : List Char) : (split position cs).1 <+: cs ∧
    ∀ t ∈ (split position cs).2, position ≤ t.position ∧ t.text <+: cs.drop (t.stop - position) := by
  induction cs generalizing position with
  | nil => simp [split]
  | cons c cs ih =>
    obtain ⟨htext, htags⟩ := ih (position + 1)
    have htail (t : Tag) (ht : t ∈ (split (position + 1) cs).2) :
        position ≤ t.position ∧ t.text <+: (c :: cs).drop (t.stop - position) := by
      obtain ⟨hp, hprefix⟩ := htags t ht
      refine ⟨by omega, ?_⟩
      have hstop : t.stop - position = t.stop - (position + 1) + 1 := by
        unfold stop
        omega
      rwa [hstop, List.drop_succ_cons]
    cases hn : name? (c :: cs) with
    | none =>
      rw [split_of_none hn]
      exact ⟨List.cons_prefix_cons.mpr ⟨rfl, htext⟩, htail⟩
    | some name =>
      rw [split_of_name hn]
      refine ⟨List.nil_prefix, List.forall_mem_cons.mpr ⟨⟨Nat.le_refl _, ?_⟩, htail⟩⟩
      have hstop : position + mark.length + name.length - position = mark.length - 1 + name.length + 1 := by
        have : 0 < mark.length := by decide
        omega
      rw [stop, hstop, List.drop_succ_cons]
      exact htext.drop _

theorem text_of_mem_all (h : t ∈ all cs) : t.text <+: cs.drop t.stop := by
  simpa using ((split_spec 0 cs).2 t h).2

theorem body_prefix (t : Tag) : t.body <+: t.text := by
  unfold body
  have hquotes (r : List Char) : (beforeQuotes? r).getD r <:+ r := by
    unfold beforeQuotes?
    split
    · exact List.suffix_append [_, _, _] _
    · exact List.suffix_append [_, _, _] _
    · exact List.suffix_refl r
  rw [← List.reverse_suffix, List.reverse_reverse]
  exact (List.dropWhile_suffix _).trans ((hquotes _).trans (List.dropWhile_suffix _))

end Tag

theorem Found.mem_concat {d : Directive} {fs : List Found} :
    d ∈ (concat fs).directives ↔ ∃ f ∈ fs, d ∈ f.directives := by
  induction fs with
  | nil => simp [concat]
  | cons f fs ih =>
    have hcons : (concat (f :: fs)).directives = f.directives ++ (concat fs).directives := rfl
    rw [hcons, List.mem_append, ih, List.exists_mem_cons_iff]

theorem Found.mem_ofTag {d : Directive} {t : Tag} {file : String} {n : Nat} :
    d ∈ (ofTag t file n).directives ↔ t.directive file n = .ok d := by
  unfold ofTag
  cases t.directive file n with
  | ok e => simp [eq_comm]
  | error es => simp

theorem Found.mem_ofLine {d : Directive} {line : List Char} {file : String} {n : Nat} :
    d ∈ (ofLine line file n).directives ↔ ∃ t ∈ Tag.all line, t.directive file n = .ok d := by
  simp [ofLine, mem_concat, mem_ofTag]

theorem Tag.directive_eq_ok {t : Tag} {file : String} {n : Nat} {d : Directive} (h : t.directive file n = .ok d) :
    ∃ kind, Directive.parse kind t.body (t.span file n) (t.stop + 1) = .ok d := by
  unfold directive at h
  dsimp only at h
  split at h
  · exact ⟨_, h⟩
  · cases h

def Directive.texts (d : Directive) : List ArgumentText := d.arguments?.getD [] ++ d.payload?.toList

namespace DirectiveParse

variable {ctx : Context} {kind : DirectiveKind} {ts : List Token}

theorem CaseForm.contiguous {label : Option String} {gs : List (List Token)} (h : CaseForm label gs ts) :
    ∀ g ∈ gs, g <:+: ts := by
  induction h with
  | @unlabelled o c gs inner _ _ hs _ => exact fun g hg => (hs.contiguous g hg).trans ⟨[o], [c], rfl⟩
  | labelled _ _ ih => exact fun g hg => (ih g hg).trans (List.suffix_cons _ _).isInfix

theorem Unwraps.contiguous {inner : List Token} (h : Unwraps ts inner) : inner <:+: ts := by
  obtain ⟨o, c, _, _, rfl, _⟩ | ⟨rfl, _⟩ := h
  · exact ⟨[o], [c], rfl⟩
  · exact List.infix_refl _

theorem Form.contiguous {name : Option String} {groups : Option (List (List Token))} {payload : Option (List Token)}
    (h : Form kind ts name groups payload) : ∀ g ∈ groups.getD [] ++ payload.toList, g <:+: ts := by
  cases h with
  | described _ h => simpa using h.contiguous
  | skipped => cases ts <;> simp
  | @mock first a _ path rest => simpa using ⟨first :: (path ++ [a]), [], by simp⟩
  | pure => simp
  | returns _ _ _ hu => simpa using hu.contiguous

theorem exists_cut {g : List Token} {a : ArgumentText} (h : ctx.cutGroup? g = some a) :
    ∃ first last, g.head? = some first ∧ g.getLast? = some last ∧ a = ctx.cut first last := by
  unfold Context.cutGroup? at h
  split at h
  · next first last hfirst hlast => exact ⟨first, last, hfirst, hlast, (Option.some.inj h).symm⟩
  · cases h

theorem toList_cut (first last : Token) : (ctx.cut first last).text.toList =
    (ctx.text.drop (first.first - ctx.base).toNat).take (last.last - first.first + 1).toNat :=
  String.toList_ofList

theorem Reads.cut_of_mem_texts {d : Directive} {a : ArgumentText} (h : Reads ctx ts d) (ha : a ∈ d.texts) :
    ∃ g, g <:+: ts ∧ ctx.cutGroup? g = some a := by
  obtain ⟨groups, payload, hform, hargs, hpayload⟩ := h.parts
  have hcontiguous := hform.contiguous
  obtain ha | ha := List.mem_append.mp ha
  · have hmem : some a ∈ (groups.map (List.map ctx.cutGroup?)).getD [] := by
      rw [hargs]
      cases hd : d.arguments? <;> simp_all
    cases groups with
    | none => simp at hmem
    | some gs =>
      obtain ⟨g, hg, hcut⟩ := List.mem_map.mp hmem
      exact ⟨g, hcontiguous g (by simpa using .inl hg), hcut⟩
  · rw [← hpayload] at ha
    obtain ⟨g, rfl, hcut⟩ := Option.bind_eq_some_iff.mp (Option.mem_toList.mp ha)
    exact ⟨g, hcontiguous g (by simp), hcut⟩

end DirectiveParse

def Span.slice (s : Span) (line : List Char) : List Char := (line.take s.endCol.toNat).drop (s.startCol - 1).toNat

def Span.within (s : Span) (ts : List Token) : List Token :=
  ts.filter fun t => s.startCol ≤ t.first ∧ t.last ≤ s.endCol

structure ArgumentText.StandsOn (a : ArgumentText) (file : String) (n : Nat) (line : List Char)
    (tokens : List Token) : Prop where
  onLine : a.span = .onLine file n a.span.startCol a.span.endCol
  columns : 1 ≤ a.span.startCol ∧ a.span.startCol ≤ a.span.endCol ∧ a.span.endCol ≤ line.length
  nonempty : a.text ≠ ""
  text : a.text.toList = a.span.slice line
  lexed : Lexer.lex a.span.startCol a.text.toList = ⟨a.span.within tokens, [], a.span.endCol + 1⟩

theorem slice_of_prefix {body line : List Char} {stop : Nat} {first last : Int} (h : body <+: line.drop stop)
    (hfirst : stop + 1 ≤ first) (horder : first ≤ last) (hlast : last < stop + 1 + body.length) :
    (body.drop (first - (stop + 1)).toNat).take (last - first + 1).toNat =
      (line.take last.toNat).drop (first - 1).toNat := by
  obtain ⟨after, hafter⟩ := h
  have htake : (body.drop (first - (stop + 1)).toNat).take (last - first + 1).toNat =
      ((line.drop stop).drop (first - (stop + 1)).toNat).take (last - first + 1).toNat := by
    rw [← hafter, List.drop_append_of_le_length (by omega),
      List.take_append_of_le_length (by rw [List.length_drop]; omega)]
  rw [htake, List.drop_drop, List.take_drop]
  congr 1
  · omega
  · congr 1
    omega

theorem Directive.standsOn_of_parse {kind : DirectiveKind} {t : Tag} {d : Directive} {a : ArgumentText} {file : String}
    {n : Nat} {line : List Char} (ht : t ∈ Tag.all line)
    (h : parse kind t.body (t.span file n) (t.stop + 1) = .ok d) (ha : a ∈ d.texts) :
    a.StandsOn file n line (Lexer.lex (t.stop + 1) t.body).tokens := by
  obtain ⟨herrors, hreads⟩ := parse_eq_ok.mp h
  obtain ⟨g, hg, hcut⟩ := hreads.cut_of_mem_texts ha
  obtain ⟨first, last, hfirst, hlast, rfl⟩ := DirectiveParse.exists_cut hcut
  have hlexes := Lexer.lexes_lex herrors
  have hslice := hlexes.slice hg hfirst hlast
  have hleft := (hlexes.bounds first (hg.subset (List.mem_of_mem_head? hfirst))).1
  have hright := (hlexes.bounds last (hg.subset (List.mem_of_mem_getLast? hlast))).2.2
  have hends := hslice.bounds last (List.mem_of_mem_getLast? hlast)
  have horder : first.first ≤ last.last := hends.1.trans hends.2.1
  have hbody : t.body <+: line.drop t.stop := t.body_prefix.trans (Tag.text_of_mem_all ht)
  have hcount : first.first + (((t.body.drop (first.first - (t.stop + 1)).toNat).take
      (last.last - first.first + 1).toNat).length : Int) = last.last + 1 := by
    rw [List.length_take, List.length_drop]
    omega
  constructor
  · rfl
  · have hlength := hbody.length_le
    rw [List.length_drop] at hlength
    dsimp only [DirectiveParse.Context.cut, Span.onLine]
    omega
  · intro hempty
    have hnil := congrArg String.toList hempty
    rw [DirectiveParse.toList_cut, String.toList_empty] at hnil
    rw [hnil, List.length_nil] at hcount
    omega
  · rw [DirectiveParse.toList_cut]
    exact slice_of_prefix hbody hleft horder hright
  · rw [DirectiveParse.toList_cut]
    refine hslice.lex_eq.trans ?_
    rw [hcount]
    have hwithin : Span.within (.onLine file n first.first last.last) (Lexer.lex (t.stop + 1) t.body).tokens = g :=
      hlexes.filter_columns hg hfirst hlast
    rw [← hwithin]
    rfl

/-- Each argument and payload of a directive on a line, also of one among several, has the text of the line at its
span. Lexing this text alone at its place gives, without an error, the tokens that the text of the directive has
there, and ends after the last column of the span. -/
theorem argument_texts_relex (line : List Char) (file : String) (n : Nat) (d : Directive)
    (hd : d ∈ (Found.ofLine line file n).directives) :
    ∃ t ∈ Tag.all line, t.directive file n = .ok d ∧
      ∀ a ∈ d.texts, a.StandsOn file n line (Lexer.lex (t.stop + 1) t.body).tokens := by
  obtain ⟨t, ht, hdirective⟩ := Found.mem_ofLine.mp hd
  obtain ⟨kind, hparse⟩ := Tag.directive_eq_ok hdirective
  exact ⟨t, ht, hdirective, fun a ha => Directive.standsOn_of_parse ht hparse ha⟩

theorem argument_texts_relex_mixed :
    ∃ d ∈ (Found.ofLine "# @nudo:pure @nudo:case \"a\" ([1, 2.5], -3,) @nudo:skip".toList "f" 7).directives,
      d.texts = [⟨"[1, 2.5]", .onLine "f" 7 30 37⟩, ⟨"-3", .onLine "f" 7 40 41⟩] ∧
      ∃ t ∈ Tag.all "# @nudo:pure @nudo:case \"a\" ([1, 2.5], -3,) @nudo:skip".toList,
        t.directive "f" 7 = .ok d ∧ ∀ a ∈ d.texts,
          a.StandsOn "f" 7 "# @nudo:pure @nudo:case \"a\" ([1, 2.5], -3,) @nudo:skip".toList
            (Lexer.lex (t.stop + 1) t.body).tokens := by
  have hd : (⟨.onLine "f" 7 14 43, .oneCase (some "a") [⟨"[1, 2.5]", .onLine "f" 7 30 37⟩,
      ⟨"-3", .onLine "f" 7 40 41⟩]⟩ : Directive) ∈
      (Found.ofLine "# @nudo:pure @nudo:case \"a\" ([1, 2.5], -3,) @nudo:skip".toList "f" 7).directives := by
    decide +kernel
  exact ⟨_, hd, rfl, argument_texts_relex _ _ _ _ hd⟩

end Casewise
