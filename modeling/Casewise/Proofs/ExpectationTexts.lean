import Casewise.Proofs.ArgumentReading
import Casewise.Proofs.ArgumentSlices

namespace Casewise

variable {ts us inner : List Token} {stack rest : List TokenKind} {t o c : Token}

theorem Balanced.comma (ht : t.kind = .comma) (h : Balanced ts) : Balanced (t :: ts) :=
  .plain (by rw [ht]; rfl) (by rw [ht]; rfl) h

theorem balanced_of_separated {gs : List (List Token)} (h : Separated gs ts) (hg : ∀ g ∈ gs, Balanced g) :
    Balanced ts := by
  induction h with
  | nil => exact .nil
  | last => exact hg _ (List.mem_singleton_self _)
  | cons hc _ ih =>
    obtain ⟨hfirst, hgs⟩ := List.forall_mem_cons.mp hg
    exact hfirst.append (.comma hc (ih hgs))

theorem due_append_right (h : due stack ts = some rest) (more : List TokenKind) :
    due (stack ++ more) ts = some (rest ++ more) := by
  induction ts generalizing stack with
  | nil =>
    obtain rfl := Option.some.inj h
    rfl
  | cons t ts ih =>
    obtain ⟨s, hs, hr⟩ := due_cons_eq_some.mp h
    refine due_cons_eq_some.mpr ⟨s ++ more, ?_, ih hr⟩
    obtain ⟨k, hk, rfl⟩ | ⟨ho, hc, rfl⟩ | ⟨hc, rfl⟩ := dueAfter_cases hs
    · exact dueAfter_opener hk
    · exact dueAfter_plain ho hc
    · exact dueAfter_closer hc

theorem isGroup_single {k : TokenKind} (hk : t.kind = k) (ho : k.closer? = none) (hc : k.isCloser = false)
    (hcomma : k ≠ .comma) : IsGroup [t] := by
  subst hk
  refine ⟨by simp, .plain ho hc .nil, ?_⟩
  rintro u ⟨before, after, he, _⟩
  obtain rfl : u = t := by simpa using (he ▸ by simp : u ∈ [t])
  refine ⟨hcomma, fun hu => ?_⟩
  rw [hu] at hc
  cases hc

theorem isGroup_bracket (hp : o.kind.closer? = some c.kind) (hb : Balanced inner) : IsGroup (o :: (inner ++ [c])) := by
  refine isGroup_iff.mpr ⟨by simp, balanced_iff_due.mp (.bracket hp hb .nil), ?_⟩
  intro before t after he hd
  cases before with
  | nil =>
    obtain ⟨rfl, _⟩ := List.cons.inj he
    exact ⟨fun hk => by simp [hk, TokenKind.closer?] at hp, fun hk => by simp [hk, TokenKind.closer?] at hp⟩
  | cons u before =>
    -- the closer of the first bracket is due up to the last token
    obtain ⟨rfl, htail⟩ : o = u ∧ inner ++ [c] = before ++ t :: after := List.cons.inj he
    rw [due_cons, dueAfter_opener hp, Option.bind_some] at hd
    have hprefix : before <+: inner := by
      refine List.prefix_of_prefix_length_le ⟨t :: after, htail.symm⟩ (List.prefix_append inner [c]) ?_
      have hlength := congrArg List.length htail
      simp only [List.length_append, List.length_cons, List.length_nil] at hlength
      omega
    obtain ⟨more, rfl⟩ := hprefix
    have hinner := balanced_iff_due.mp hb
    rw [due_append] at hinner
    obtain ⟨s, hs, _⟩ := Option.bind_eq_some_iff.mp hinner
    have hopen : due [c.kind] before = some (s ++ [c.kind]) := due_append_right hs [c.kind]
    rw [hd] at hopen
    simp at hopen

theorem IsGroup.append (ht : IsGroup ts) (hu : IsGroup us) : IsGroup (ts ++ us) := by
  obtain ⟨hn, hdt, hut⟩ := isGroup_iff.mp ht
  obtain ⟨_, hdu, huu⟩ := isGroup_iff.mp hu
  refine isGroup_iff.mpr ⟨by simp [hn], by rw [due_append, hdt]; exact hdu, ?_⟩
  intro before t after he hd
  obtain ⟨middle, rfl, hus⟩ | ⟨middle, rfl, htail⟩ := List.append_eq_append_iff.mp he
  · rw [due_append, hdt] at hd
    exact huu middle t after hus hd
  · cases middle with
    | nil =>
      rw [List.append_nil] at hdt
      exact huu [] t after htail.symm rfl
    | cons u middle =>
      obtain ⟨rfl, _⟩ := List.cons.inj htail
      exact hut before t middle rfl hd

namespace Argument

variable {accepts : CaseValue → Bool} {v : CaseValue}

theorem Enclosed.isGroup {opener closer : TokenKind} (h : Enclosed opener closer inner ts)
    (hp : opener.closer? = some closer) (hb : Balanced inner) : IsGroup ts := by
  obtain ⟨o, c, rfl, rfl, rfl⟩ := h
  exact isGroup_bracket hp hb

theorem Named.isGroup {name : String} (h : Named name ts) : IsGroup ts := by
  obtain ⟨t, d, n, ht, _, hd, hn, _, rfl⟩ := h
  exact (isGroup_single ht rfl rfl nofun).append ((isGroup_single hd rfl rfl nofun).append (isGroup_single hn rfl rfl nofun))

theorem Field.balanced {f : Field} (hk : f.WellKeyed) (hb : Balanced f.tokens) : Balanced f.all := by
  refine .plain ?_ ?_ (.plain (by rw [hk.colon]; rfl) (by rw [hk.colon]; rfl) hb)
  · rcases hk.key with hkey | hkey <;> rw [hkey] <;> rfl
  · rcases hk.key with hkey | hkey <;> rw [hkey] <;> rfl

theorem balanced_of_parts {parts : List (List Token × CaseValue)} (hs : Separated (parts.map Prod.fst) ts)
    (hp : ∀ q ∈ parts, IsGroup q.1) : Balanced ts :=
  balanced_of_separated hs (List.forall_mem_map.mpr fun q hq => (hp q hq).balanced)

theorem Derives.isGroup (h : Derives accepts ts v) : IsGroup ts := by
  induction h with
  | number ht => exact isGroup_single ht rfl rfl nofun
  | negative hm ht => exact (isGroup_single hm rfl rfl nofun).append (isGroup_single ht rfl rfl nofun)
  | text ht => exact isGroup_single ht rfl rfl nofun
  | constant ht => exact isGroup_single ht rfl rfl nofun
  | list hw hs _ ih => exact hw.isGroup rfl (balanced_of_parts hs ih)
  | unit hw => exact hw.isGroup rfl .nil
  | group hw _ ih => exact hw.isGroup rfl ih.balanced
  | several hw _ hc hs _ ihv ih =>
    exact hw.isGroup rfl (ihv.balanced.append (.comma hc (balanced_of_parts hs ih)))
  | object hw hs hk _ ih =>
    refine hw.isGroup rfl (balanced_of_separated hs (List.forall_mem_map.mpr fun f hf => ?_))
    exact Field.balanced (hk f hf) (ih f hf).balanced
  | placeholder hn => exact hn.isGroup
  | throws hn => exact hn.isGroup
  | throwsNamed hn hw he => exact hn.isGroup.append (hw.isGroup rfl (isGroup_single he rfl rfl nofun).balanced)
  | union hn hw hs _ ih => exact hn.isGroup.append (hw.isGroup rfl (balanced_of_parts hs ih))
  | literal hn hw hs _ _ ih | array hn hw hs _ ih | objectType hn hw hs _ _ ih =>
    exact hn.isGroup.append (hw.isGroup rfl (balanced_of_separated hs (List.forall_mem_singleton.mpr ih.balanced)))
  | tuple hn hw he hs _ ih =>
    exact hn.isGroup.append (hw.isGroup rfl (he.isGroup rfl (balanced_of_parts hs ih)).balanced)
  | @function parts head inner params after args hn hw he hs _ ha ih =>
    have hafter : Balanced after := by
      rcases ha with ha | ha
      · obtain rfl := List.map_eq_nil_iff.mp ha
        exact .nil
      · obtain ⟨comma, us, rfl, hcomma, hus⟩ := List.map_eq_cons_iff.mp ha
        obtain rfl := List.map_eq_nil_iff.mp hus
        exact .comma hcomma .nil
    exact hn.isGroup.append (hw.isGroup rfl ((he.isGroup rfl (balanced_of_parts hs ih)).balanced.append hafter))
  | functionTo hn hw he hs _ hc _ ih ihv =>
    have hresult := Balanced.comma hc ihv.balanced
    exact hn.isGroup.append (hw.isGroup rfl ((he.isGroup rfl (balanced_of_parts hs ih)).balanced.append hresult))

structure Keeps (f : Token → Token) : Prop where
  kind : ∀ t, (f t).kind = t.kind
  text : ∀ t, (f t).text = t.text

section

variable {f : Token → Token} (hf : Keeps f)

include hf

theorem Keeps.numberOf? (t : Token) : numberOf? (f t) = Argument.numberOf? t := by
  rw [Argument.numberOf?, hf.text, Argument.numberOf?]

theorem Enclosed.map {opener closer : TokenKind} (h : Enclosed opener closer inner ts) :
    Enclosed opener closer (inner.map f) (ts.map f) := by
  obtain ⟨o, c, ho, hc, rfl⟩ := h
  exact ⟨f o, f c, by rw [hf.kind, ho], by rw [hf.kind, hc], by simp⟩

theorem Named.map {name : String} (h : Named name ts) : Named name (ts.map f) := by
  obtain ⟨t, d, n, ht, hT, hd, hn, hname, rfl⟩ := h
  exact ⟨f t, f d, f n, by rw [hf.kind, ht], by rw [hf.text, hT], by rw [hf.kind, hd], by rw [hf.kind, hn],
    by rw [hf.text, hname], rfl⟩

theorem Keeps.separated {gs : List (List Token)} (h : Separated gs ts) :
    Separated (gs.map (List.map f)) (ts.map f) := by
  induction h with
  | nil => exact .nil
  | last => exact .last
  | cons hc _ ih =>
    rw [List.map_append, List.map_cons]
    exact .cons (by rw [hf.kind, hc]) ih

theorem Keeps.exists_parts {parts : List (List Token × CaseValue)} (hs : Separated (parts.map Prod.fst) ts)
    (hp : ∀ q ∈ parts, Derives accepts (q.1.map f) q.2) :
    ∃ changed : List (List Token × CaseValue), Separated (changed.map Prod.fst) (ts.map f) ∧
      (∀ q ∈ changed, Derives accepts q.1 q.2) ∧ parts.map Prod.snd = changed.map Prod.snd := by
  refine ⟨parts.map fun q => (q.1.map f, q.2), ?_, List.forall_mem_map.mpr hp, ?_⟩
  · have hchanged := hf.separated hs
    rwa [List.map_map] at hchanged ⊢
  · rw [List.map_map]
    rfl

theorem Derives.map (h : Derives accepts ts v) : Derives accepts (ts.map f) v := by
  have htypes (parts : List (List Token × CaseValue)) : parts.map (·.2.type) = (parts.map Prod.snd).map (·.type) := by
    rw [List.map_map]
    rfl
  induction h with
  | number ht hx => exact .number (by rw [hf.kind, ht]) (by rw [hf.numberOf?, hx])
  | negative hm ht hx => exact .negative (by rw [hf.kind, hm]) (by rw [hf.kind, ht]) (by rw [hf.numberOf?, hx])
  | @text t ht =>
    rw [← hf.text t]
    exact .text (by rw [hf.kind, ht])
  | constant ht hv => exact .constant (by rw [hf.kind, ht]) (by rw [hf.text, hv])
  | list hw hs _ ih =>
    obtain ⟨changed, hs, hp, hvalues⟩ := hf.exists_parts hs ih
    rw [hvalues]
    exact .list (hw.map hf) hs hp
  | unit hw => exact .unit (hw.map hf)
  | group hw _ ih => exact .group (hw.map hf) ih
  | several hw _ hc hs _ ihv ih =>
    obtain ⟨changed, hs, hp, hvalues⟩ := hf.exists_parts hs ih
    have hw := hw.map hf
    rw [List.map_append, List.map_cons] at hw
    rw [hvalues]
    exact .several hw ihv (by rw [hf.kind, hc]) hs hp
  | @object fields inner ts hw hs hk _ ih =>
    let changed := fields.map fun g => (⟨f g.key, f g.colon, g.tokens.map f, g.value⟩ : Field)
    have hbindings : fields.map Field.binding = changed.map Field.binding := by
      rw [List.map_map]
      refine List.map_congr_left fun g _ => ?_
      rw [Function.comp_apply, Field.binding, Field.binding, hf.text]
    have hall : (fields.map Field.all).map (List.map f) = changed.map Field.all := by
      rw [List.map_map, List.map_map]
      rfl
    rw [hbindings]
    refine .object (hw.map hf) (hall ▸ hf.separated hs) ?_ (List.forall_mem_map.mpr ih)
    refine List.forall_mem_map.mpr fun g hg => ⟨?_, ?_⟩
    · rw [hf.kind]
      exact (hk g hg).key
    · rw [hf.kind]
      exact (hk g hg).colon
  | placeholder hn ht => exact .placeholder (hn.map hf) ht
  | throws hn => exact .throws (hn.map hf)
  | @throwsNamed head args e hn hw he =>
    rw [List.map_append, ← hf.text e]
    exact .throwsNamed (hn.map hf) (hw.map hf) (by rw [hf.kind, he])
  | union hn hw hs _ ih =>
    obtain ⟨changed, hs, hp, hvalues⟩ := hf.exists_parts hs ih
    rw [List.map_append, htypes, hvalues, ← htypes]
    exact .union (hn.map hf) (hw.map hf) hs hp
  | literal hn hw hs _ hd ih =>
    rw [List.map_append]
    exact .literal (hn.map hf) (hw.map hf) (hf.separated hs) ih hd
  | array hn hw hs _ ih =>
    rw [List.map_append]
    exact .array (hn.map hf) (hw.map hf) (hf.separated hs) ih
  | objectType hn hw hs _ ha ih =>
    rw [List.map_append]
    exact .objectType (hn.map hf) (hw.map hf) (hf.separated hs) ih ha
  | tuple hn hw he hs _ ih =>
    obtain ⟨changed, hs, hp, hvalues⟩ := hf.exists_parts hs ih
    rw [List.map_append, htypes, hvalues, ← htypes]
    exact .tuple (hn.map hf) (hw.map hf) (he.map hf) hs hp
  | function hn hw he hs _ ha ih =>
    obtain ⟨changed, hs, hp, hvalues⟩ := hf.exists_parts hs ih
    have hkinds (us : List Token) : (us.map f).map Token.kind = us.map Token.kind := by
      rw [List.map_map]
      exact List.map_congr_left fun t _ => hf.kind t
    have hw := hw.map hf
    rw [List.map_append] at hw
    rw [← hkinds] at ha
    rw [List.map_append, htypes, hvalues, ← htypes]
    exact .function (hn.map hf) hw (he.map hf) hs hp ha
  | functionTo hn hw he hs _ hc _ ih ihv =>
    obtain ⟨changed, hs, hp, hvalues⟩ := hf.exists_parts hs ih
    have hw := hw.map hf
    rw [List.map_append, List.map_cons] at hw
    rw [List.map_append, htypes, hvalues, ← htypes]
    exact .functionTo (hn.map hf) hw (he.map hf) hs hp (by rw [hf.kind, hc]) ihv

end

end Argument

theorem Token.keeps_moved (d : Int) : Argument.Keeps (·.moved d) := ⟨fun _ => rfl, fun _ => rfl⟩

namespace DirectiveParse

def IsList (ts : List Token) : Prop :=
  ∃ inner, Wraps ts inner ∧ (inner = [] ∨ ∃ t, TopLevel inner t ∧ t.kind = .comma)

variable {accepts : CaseValue → Bool} {v : CaseValue}

theorem Wraps.inner_eq (h : Wraps ts inner) (hu : Wraps ts us) : inner = us := by
  obtain ⟨o, c, _, _, rfl, _⟩ := h
  obtain ⟨o', c', _, _, he, _⟩ := hu
  exact (List.append_inj' (List.cons.inj he).2 rfl).1

theorem derives_of_wraps (h : Argument.Derives accepts ts v) (hw : Wraps ts inner) :
    inner = [] ∨ Argument.Derives accepts inner v ∨ ∃ t, TopLevel inner t ∧ t.kind = .comma := by
  obtain ⟨o, c, ho, _, hts, _⟩ := hw
  have hinner {opener closer : TokenKind} {us : List Token} (h : Argument.Enclosed opener closer us ts) :
      o.kind = opener ∧ inner = us := by
    obtain ⟨o', c', rfl, _, he⟩ := h
    obtain ⟨rfl, htail⟩ := List.cons.inj (hts.symm.trans he)
    exact ⟨rfl, (List.append_inj' htail rfl).1⟩
  have hfirst {t : Token} {us : List Token} (he : ts = t :: us) : t.kind = .openParen := by
    obtain ⟨rfl, _⟩ := List.cons.inj (hts.symm.trans he)
    exact ho
  have hnamed {name : String} {head args : List Token} (hn : Argument.Named name head) (he : ts = head ++ args) :
      False := by
    obtain ⟨t, d, n, ht, _, _, _, _, rfl⟩ := hn
    have hk := hfirst he
    rw [ht] at hk
    cases hk
  cases h with
  | number ht | negative ht | text ht | constant ht =>
    have hk := hfirst rfl
    rw [ht] at hk
    cases hk
  | list hw | object hw =>
    have hk := (hinner hw).1
    rw [ho] at hk
    cases hk
  | unit hw => exact .inl (hinner hw).2
  | group hw hv =>
    obtain ⟨_, rfl⟩ := hinner hw
    exact .inr (.inl hv)
  | several hw hv hc =>
    obtain ⟨_, rfl⟩ := hinner hw
    exact .inr (.inr ⟨_, ⟨_, _, rfl, hv.isGroup.balanced⟩, hc⟩)
  | placeholder hn | throws hn => exact (hnamed hn (List.append_nil _).symm).elim
  | throwsNamed hn | union hn | literal hn | array hn | objectType hn | tuple hn | function hn | functionTo hn =>
    exact (hnamed hn rfl).elim

theorem unwraps_of_derives (h : Argument.Derives accepts ts v) :
    (¬ IsList ts ∧ ∃ inner, Unwraps ts inner ∧ Argument.Derives accepts inner v) ∨
    (IsList ts ∧ ts.map Token.kind = [.openParen, .closeParen]) ∨
    (IsList ts ∧ ∃ inner, Unwraps ts inner ∧ inner ≠ [] ∧ ¬ IsGroup inner) := by
  by_cases hwraps : ∃ inner, Wraps ts inner
  · obtain ⟨inner, hw⟩ := hwraps
    obtain rfl | hinner | ⟨t, htop, hcomma⟩ := derives_of_wraps h hw
    · obtain ⟨o, c, ho, hc, rfl, _⟩ := id hw
      exact .inr (.inl ⟨⟨[], hw, .inl rfl⟩, by simp [ho, hc]⟩)
    · refine .inl ⟨?_, inner, .inl hw, hinner⟩
      rintro ⟨us, hus, hlist⟩
      obtain rfl := hw.inner_eq hus
      obtain rfl | ⟨t, htop, hcomma⟩ := hlist
      · exact hinner.isGroup.nonempty rfl
      · exact (hinner.isGroup.unsplit t htop).1 hcomma
    · refine .inr (.inr ⟨⟨inner, hw, .inr ⟨t, htop, hcomma⟩⟩, inner, .inl hw, ?_, fun hgroup => ?_⟩)
      · rintro rfl
        obtain ⟨before, after, he, _⟩ := htop
        simp at he
      · exact (hgroup.unsplit t htop).1 hcomma
  · exact .inl ⟨fun ⟨inner, hw, _⟩ => hwraps ⟨inner, hw⟩, ts, .inr ⟨rfl, hwraps⟩, h⟩

theorem lexed_cutGroup {ctx : Context} {a : ArgumentText} (h : Lexer.Lexes ctx.base ctx.text ts) (hg : inner <:+: ts)
    (hcut : ctx.cutGroup? inner = some a) : a.lexed.errors = [] ∧ a.lexed.tokens = inner := by
  obtain ⟨first, last, hfirst, hlast, rfl⟩ := exists_cut hcut
  have hslice := (h.slice hg hfirst hlast).lex_eq
  rw [← toList_cut] at hslice
  have hlexed : (ctx.cut first last).lexed = Lexer.lex first.first (ctx.cut first last).text.toList := rfl
  rw [hlexed, hslice]
  exact ⟨rfl, rfl⟩

end DirectiveParse

namespace Directive

open DirectiveParse

variable {text : List Char} {base : Int}

theorem exists_parse_returns (h : Lexer.Lexes base text ts) (hb : Balanced ts) (hu : Unwraps ts inner)
    (hn : inner ≠ []) (span : Span) : ∃ p, parse .returns text span base = .ok ⟨span, .returns p⟩ ∧
      p.lexed.errors = [] ∧ p.lexed.tokens = inner := by
  obtain ⟨p, hp⟩ : ∃ p, Context.cutGroup? ⟨.returns, span, text, base⟩ inner = some p := exists_cutGroup_iff.mpr hn
  obtain ⟨hts, hne⟩ := hu.ne_nil_iff.mp hn
  refine ⟨p, parse_eq_ok.mpr ?_, lexed_cutGroup h hu.contiguous hp⟩
  rw [h.lex_eq]
  exact ⟨rfl, rfl, rfl, none, some inner, .returns hts hb hne hu, rfl, hp⟩

theorem parse_returns_unit (h : Lexer.Lexes base text ts) (hk : ts.map Token.kind = [.openParen, .closeParen])
    (span : Span) : ∃ d, parse .returns text span base = .error [d] ∧ d.code = "E100" := by
  unfold parse
  rw [h.lex_eq]
  dsimp only
  cases hbody : DirectiveParse.body ⟨.returns, span, text, base⟩ ts with
  | error e => exact ⟨_, rfl, rfl⟩
  | ok b =>
    obtain ⟨groups, payload, hform, _⟩ := (reads_of_body hbody).parts
    generalize Directive.name? _ = name at hform
    cases hform with
    | described hkind => simp at hkind
    | returns _ _ hne => exact absurd hk hne

end Directive

theorem ArgumentText.exists_error_of_not_isGroup {arg : ArgumentText} (h : ¬ IsGroup arg.lexed.tokens) :
    ∃ d ∈ arg.evaluate.2, d.code = "E110" := by
  obtain ⟨_, hderives, _⟩ | herror := arg.evaluate_cases
  · exact absurd hderives.isGroup h
  · exact herror

theorem ArgumentText.derives_lex {arg : ArgumentText} {v : CaseValue} (h : arg.evaluate = (v, [])) (base : Int) :
    Lexer.Lexes base arg.text.toList (Lexer.lex base arg.text.toList).tokens ∧
      Argument.Derives CaseValue.objectOrType (Lexer.lex base arg.text.toList).tokens v := by
  obtain ⟨herrors, hderives⟩ := (arg.evaluate_eq_iff v).mp h
  -- they are the tokens that the argument has, at other columns
  have hlexes := (Lexer.lexes_lex herrors).moved (base - arg.span.startCol)
  rw [show arg.span.startCol + (base - arg.span.startCol) = base by omega] at hlexes
  have htokens : (Lexer.lex base arg.text.toList).tokens = _ := congrArg Lexed.tokens hlexes.lex_eq
  rw [htokens]
  exact ⟨hlexes, hderives.map (Token.keeps_moved _)⟩

/-- A text that is evaluated without an error has its value also as an expectation, unless parentheses around all of it
hold nothing or a comma outside all brackets. Without anything in them the directive is refused; otherwise what they hold
is taken for one argument, and this is an error. -/
theorem expectation_means_its_expression (arg : ArgumentText) (v : CaseValue) (h : arg.evaluate = (v, []))
    (span : Span) (base : Int) (ts : List Token) (hts : ts = (Lexer.lex base arg.text.toList).tokens) :
    ((∃ p, Directive.parse .returns arg.text.toList span base = .ok ⟨span, .returns p⟩ ∧ p.evaluate = (v, [])) ↔
      ¬ DirectiveParse.IsList ts) ∧
    (ts.map Token.kind = [.openParen, .closeParen] →
      ∃ d, Directive.parse .returns arg.text.toList span base = .error [d] ∧ d.code = "E100") ∧
    (DirectiveParse.IsList ts → ts.map Token.kind ≠ [.openParen, .closeParen] →
      ∃ p, Directive.parse .returns arg.text.toList span base = .ok ⟨span, .returns p⟩ ∧
        ∃ d ∈ p.evaluate.2, d.code = "E110") := by
  obtain ⟨hlexes, hderives⟩ := ArgumentText.derives_lex h base
  rw [← hts] at hlexes hderives
  have hbalanced := hderives.isGroup.balanced
  have hunit (hkinds : ts.map Token.kind = [.openParen, .closeParen]) :=
    Directive.parse_returns_unit hlexes hkinds span
  obtain ⟨hnot, inner, hu, hinner⟩ | ⟨hlist, hkinds⟩ | ⟨hlist, inner, hu, hn, hgroup⟩ :=
    DirectiveParse.unwraps_of_derives hderives
  · obtain ⟨p, hparse, hlexed, htokens⟩ :=
      Directive.exists_parse_returns hlexes hbalanced hu hinner.isGroup.nonempty span
    rw [← htokens] at hinner
    exact ⟨iff_of_true ⟨p, hparse, (p.evaluate_eq_iff v).mpr ⟨hlexed, hinner⟩⟩ hnot, hunit,
      fun hlist => absurd hlist hnot⟩
  · refine ⟨iff_of_false ?_ (not_not_intro hlist), hunit, fun _ hne => absurd hkinds hne⟩
    rintro ⟨p, hparse, _⟩
    obtain ⟨d, herror, _⟩ := hunit hkinds
    rw [herror] at hparse
    cases hparse
  · obtain ⟨p, hparse, _, htokens⟩ := Directive.exists_parse_returns hlexes hbalanced hu hn span
    rw [← htokens] at hgroup
    obtain ⟨d, hd, hcode⟩ := ArgumentText.exists_error_of_not_isGroup hgroup
    refine ⟨iff_of_false ?_ (not_not_intro hlist), hunit, fun _ _ => ⟨p, hparse, d, hd, hcode⟩⟩
    rintro ⟨q, hq, hvalue⟩
    obtain rfl : p = q := by simpa using hparse.symm.trans hq
    rw [hvalue] at hd
    cases hd

theorem pair_is_no_expectation :
    (ArgumentText.mk "(1, 2)" (.onLine "f" 1 1 6)).evaluate = (.concrete (.list [.int 1, .int 2]), []) ∧
      (¬ ∃ p, Directive.parse .returns "(1, 2)".toList (.onLine "f" 1 1 20) 15 =
        .ok ⟨.onLine "f" 1 1 20, .returns p⟩ ∧ p.evaluate = (.concrete (.list [.int 1, .int 2]), [])) ∧
      ∃ p, Directive.parse .returns "(1, 2)".toList (.onLine "f" 1 1 20) 15 = .ok ⟨.onLine "f" 1 1 20, .returns p⟩ ∧
        ∃ d ∈ p.evaluate.2, d.code = "E110" := by
  have hvalue : (ArgumentText.mk "(1, 2)" (.onLine "f" 1 1 6)).evaluate =
      (.concrete (.list [.int 1, .int 2]), []) := by
    have htokens : (ArgumentText.mk "(1, 2)" (.onLine "f" 1 1 6)).lexed.tokens =
        [⟨.openParen, "(", 1, 1⟩, ⟨.number, "1", 2, 2⟩, ⟨.comma, ",", 3, 3⟩, ⟨.number, "2", 5, 5⟩,
          ⟨.closeParen, ")", 6, 6⟩] := by
      decide +kernel
    refine (ArgumentText.evaluate_eq_iff _ _).mpr ⟨by decide +kernel, ?_⟩
    rw [htokens]
    have hone : Argument.Derives CaseValue.objectOrType [⟨.number, "1", 2, 2⟩] (.concrete (.int 1)) :=
      .number rfl rfl
    have htwo : Argument.Derives CaseValue.objectOrType [⟨.number, "2", 5, 5⟩] (.concrete (.int 2)) :=
      .number rfl rfl
    have hparts : ∀ part ∈ [(([⟨.number, "2", 5, 5⟩] : List Token), CaseValue.concrete (.int 2))],
        Argument.Derives CaseValue.objectOrType part.1 part.2 := List.forall_mem_singleton.mpr htwo
    have hafter : Separated ([([⟨.number, "2", 5, 5⟩], CaseValue.concrete (.int 2))].map Prod.fst)
        [⟨.number, "2", 5, 5⟩] := .last
    exact .several ⟨_, _, rfl, rfl, rfl⟩ hone rfl hafter hparts
  have htokens : [⟨.openParen, "(", 15, 15⟩, ⟨.number, "1", 16, 16⟩, ⟨.comma, ",", 17, 17⟩, ⟨.number, "2", 19, 19⟩,
      ⟨.closeParen, ")", 20, 20⟩] = (Lexer.lex 15 "(1, 2)".toList).tokens := by
    decide +kernel
  have hlist : DirectiveParse.IsList [⟨.openParen, "(", 15, 15⟩, ⟨.number, "1", 16, 16⟩, ⟨.comma, ",", 17, 17⟩,
      ⟨.number, "2", 19, 19⟩, ⟨.closeParen, ")", 20, 20⟩] := by
    refine ⟨[⟨.number, "1", 16, 16⟩, ⟨.comma, ",", 17, 17⟩, ⟨.number, "2", 19, 19⟩],
      ⟨_, _, rfl, rfl, rfl, .plain rfl rfl (.plain rfl rfl (.plain rfl rfl .nil))⟩, .inr ⟨⟨.comma, ",", 17, 17⟩, ?_, rfl⟩⟩
    exact ⟨[⟨.number, "1", 16, 16⟩], _, rfl, .plain rfl rfl .nil⟩
  obtain ⟨hmeans, _, herror⟩ := expectation_means_its_expression _ _ hvalue (.onLine "f" 1 1 20) 15 _ htokens
  exact ⟨hvalue, fun hp => hmeans.mp hp hlist, herror hlist (by decide)⟩

end Casewise
