import Casewise.Proofs.ArgumentGrammar

namespace Casewise.Argument

def Gives {α : Type} (x : Reader α) (s : State) (P : List Token → α → Prop) : Prop :=
  ∀ a s', x.run s = (.ok a, s') → (∃ more, s'.errors = s.errors ++ more ∧ ∀ d ∈ more, d.code = "E110") ∧
    (s'.errors = s.errors → ∃ ts, s.tokens = ts ++ s'.tokens ∧ P ts a)

section

variable {α β : Type} {x y : Reader α} {f : α → Reader β} {a : α} {s : State} {P : List Token → α → Prop}
  {Q : List Token → β → Prop} {t : Token} {us : List Token} {es : List Diagnostic} {p : Place} {kind : TokenKind}

theorem gives_pure (h : P [] a) : Gives (pure a) s P := by
  intro b s' hr
  cases hr
  exact ⟨⟨[], by simp, by simp⟩, fun _ => ⟨[], rfl, h⟩⟩

theorem gives_fail {e : ArgumentError} {span : Span} : Gives (fail e span) s P := by
  intro b s' hr
  cases hr

theorem Gives.mono {P' : List Token → α → Prop} (h : Gives x s P) (hp : ∀ ts a, P ts a → P' ts a) : Gives x s P' := by
  intro a s' hr
  obtain ⟨hmore, hok⟩ := h a s' hr
  refine ⟨hmore, fun he => ?_⟩
  obtain ⟨ts, ht, ha⟩ := hok he
  exact ⟨ts, ht, hp ts a ha⟩

theorem run_bind_eq_ok {s' : State} {b : β} (h : (x >>= f).run s = (.ok b, s')) :
    ∃ a s₁, x.run s = (.ok a, s₁) ∧ (f a).run s₁ = (.ok b, s') := by
  have hs : (x >>= f).run s = ExceptT.bindCont f (x.run s).1 (x.run s).2 := rfl
  rw [hs] at h
  cases hr : x.run s with
  | mk r s₁ =>
    rw [hr] at h
    cases r with
    | ok a => exact ⟨a, s₁, rfl, h⟩
    | error e => cases h

theorem Gives.bind (hx : Gives x s P)
    (hf : ∀ a s₁, Gives (f a) s₁ fun us b => ∀ ts, P ts a → Q (ts ++ us) b) : Gives (x >>= f) s Q := by
  intro b s₂ hr
  obtain ⟨a, s₁, hfirst, hsecond⟩ := run_bind_eq_ok hr
  obtain ⟨⟨more₁, he₁, hc₁⟩, hok₁⟩ := hx a s₁ hfirst
  obtain ⟨⟨more₂, he₂, hc₂⟩, hok₂⟩ := hf a s₁ b s₂ hsecond
  refine ⟨⟨more₁ ++ more₂, by rw [he₂, he₁, List.append_assoc], ?_⟩, fun he => ?_⟩
  · exact fun d hd => (List.mem_append.mp hd).elim (hc₁ d) (hc₂ d)
  · have hnone : more₁ = [] ∧ more₂ = [] := by simpa [he₁, he₂] using he
    obtain ⟨ts, ht, ha⟩ := hok₁ (by simpa [hnone.1] using he₁)
    obtain ⟨us, hu, hb⟩ := hok₂ (by simpa [hnone.2] using he₂)
    exact ⟨ts ++ us, by rw [ht, hu, List.append_assoc], hb ts ha⟩

theorem gives_ite {c : Prop} [Decidable c] (hx : c → Gives x s P) (hy : ¬ c → Gives y s P) :
    Gives (if c then x else y) s P := by
  split
  · next hc => exact hx hc
  · next hc => exact hy hc

theorem gives_peek {f : Option Token → Reader β} (h : Gives (f s.tokens.head?) s Q) : Gives (peek >>= f) s Q := h

theorem gives_advance {f : Unit → Reader β} (h : Gives (f ()) ⟨us, es⟩ fun ts b => Q (t :: ts) b) :
    Gives (advance >>= f) ⟨t :: us, es⟩ Q := by
  intro b s' hr
  obtain ⟨hmore, hok⟩ := h b s' hr
  refine ⟨hmore, fun he => ?_⟩
  obtain ⟨ts, ht, hb⟩ := hok he
  exact ⟨t :: ts, by rw [List.cons_append, ← ht], hb⟩

theorem gives_take {f : Unit → Reader β} {y : Reader β}
    (hx : ∀ t us, t.kind = kind → Gives (f ()) ⟨us, s.errors⟩ fun ts b => Q (t :: ts) b) (hy : Gives y s Q) :
    Gives (isNext kind >>= fun c => if c = true then advance >>= f else y) s Q := by
  obtain ⟨tokens, es⟩ := s
  cases tokens with
  | nil => exact hy
  | cons t us =>
    have hs : (isNext kind >>= fun c => if c = true then advance >>= f else y).run ⟨t :: us, es⟩ =
      (if (t.kind == kind) = true then advance >>= f else y).run ⟨t :: us, es⟩ := rfl
    intro b s' hr
    rw [hs] at hr
    by_cases hk : t.kind = kind
    · rw [if_pos (by simpa using hk)] at hr
      exact gives_advance (hx t us hk) b s' hr
    · rw [if_neg (by simpa using hk)] at hr
      exact hy b s' hr

theorem gives_isNext {f : Bool → Reader β} (h : ∀ c, Gives (f c) s Q) : Gives (isNext kind >>= f) s Q :=
  h (s.tokens.head?.any fun t : Token => t.kind == kind)

theorem gives_expect {f : Token → Reader β} {what : String}
    (h : ∀ t us, t.kind = kind → Gives (f t) ⟨us, s.errors⟩ fun ts b => Q (t :: ts) b) :
    Gives (expect p kind what >>= f) s Q := by
  obtain ⟨tokens, es⟩ := s
  cases tokens with
  | nil => exact fun b s' hr => nomatch hr
  | cons t us =>
    have hs : (expect p kind what >>= f).run ⟨t :: us, es⟩ = ((if t.kind = kind then advance >>= fun _ => pure t
      else fail (.expected what (some t.text)) (p.tokenSpan t)) >>= f).run ⟨t :: us, es⟩ := rfl
    intro b s' hr
    rw [hs] at hr
    by_cases hk : t.kind = kind
    · rw [if_pos hk] at hr
      exact gives_advance (f := fun _ => f t) (h t us hk) b s' hr
    · rw [if_neg hk] at hr
      cases hr

theorem gives_check {x y : Reader β} (hx : Gives x s Q)
    (hy : ∀ t us, t.kind = kind → s.tokens = t :: us → Gives y s Q) :
    Gives (isNext kind >>= fun c => if (!c) = true then x else y) s Q := by
  obtain ⟨tokens, es⟩ := s
  cases tokens with
  | nil => exact hx
  | cons t us =>
    have hs : (isNext kind >>= fun c => if (!c) = true then x else y).run ⟨t :: us, es⟩ =
      (if (!(t.kind == kind)) = true then x else y).run ⟨t :: us, es⟩ := rfl
    intro b s' hr
    rw [hs] at hr
    by_cases hk : t.kind = kind
    · rw [if_neg (by simpa using hk)] at hr
      exact hy t us hk rfl b s' hr
    · rw [if_pos (by simpa using hk)] at hr
      exact hx b s' hr

theorem gives_fail_next {e : String → ArgumentError} {span : Option Token → Span} :
    Gives (nextText >>= fun text => peek >>= fun next => fail (e text) (span next) >>= f) s Q := by
  intro b s' hr
  cases hr

theorem Accepts.gives {ts rest : List Token} (h : Accepts x ts rest a) :
    Gives x ⟨ts ++ rest, es⟩ fun us b => us = ts ∧ b = a := by
  intro b s' hr
  rw [h es] at hr
  cases hr
  exact ⟨⟨[], by simp, by simp⟩, fun _ => ⟨ts, rfl, rfl, rfl⟩⟩

theorem gives_report {f : Unit → Reader β} {d : Diagnostic} (hd : d.code = "E110")
    (h : ∀ s, Gives (f ()) s fun _ _ => True) :
    Gives ((modify fun s => { s with errors := s.errors ++ [d] }) >>= f) s Q := by
  intro b s' hr
  obtain ⟨⟨more, he, hc⟩, _⟩ := h ⟨s.tokens, s.errors ++ [d]⟩ b s' hr
  refine ⟨⟨d :: more, by rw [he]; simp, ?_⟩, fun hsame => ?_⟩
  · exact List.forall_mem_cons.mpr ⟨hd, hc⟩
  · rw [he] at hsame
    simp at hsame

theorem gives_fail_bind {e : ArgumentError} {span : Span} : Gives (fail e span >>= f) s Q := by
  intro b s' hr
  cases hr

theorem gives_number : Gives (number p t) s fun ts x => ts = [] ∧ numberOf? t = some x := by
  unfold number
  split
  · next n hn => exact gives_pure ⟨rfl, hn⟩
  · exact gives_fail

end

def Listed (closer : TokenKind) (ts : List Token) (vs : List CaseValue) : Prop :=
  ∃ parts : List (List Token × CaseValue), ∃ inner c, c.kind = closer ∧ ts = inner ++ [c] ∧
    Separated (parts.map Prod.fst) inner ∧ (∀ q ∈ parts, Derives CaseValue.objectOrType q.1 q.2) ∧
    vs = parts.map Prod.snd

def Fielded (before : Bindings CaseValue) (ts : List Token) (result : Bindings CaseValue) : Prop :=
  ∃ fs : List Field, ∃ inner c, c.kind = .closeBrace ∧ ts = inner ++ [c] ∧ Separated (fs.map Field.all) inner ∧
    (∀ f ∈ fs, f.WellKeyed) ∧ (∀ f ∈ fs, Derives CaseValue.objectOrType f.tokens f.value) ∧
    result = before.update (fs.map Field.binding)

def Returned (ts : List Token) (t : Ty) : Prop :=
  ((ts.map Token.kind = [] ∨ ts.map Token.kind = [.comma]) ∧ t = .unknown) ∨
    ∃ comma us v, comma.kind = .comma ∧ ts = comma :: us ∧ Derives CaseValue.objectOrType us v ∧ t = v.type

structure Grammatical (p : Place) (n : Nat) : Prop where
  value : ∀ s, Gives (value p n) s (Derives CaseValue.objectOrType)
  items : ∀ closer s, Gives (items p closer n) s (Listed closer)
  parenthesized : ∀ s, Gives (parenthesized p n) s fun ts v =>
    ∀ o : Token, o.kind = .openParen → Derives CaseValue.objectOrType (o :: ts) v
  fields : ∀ before s, Gives (fields p before n) s (Fielded before)
  constructed : ∀ name s, Gives (constructed p name n) s fun ts v =>
    ∀ head, Named name.text head → Derives CaseValue.objectOrType (head ++ ts) v
  returnType : ∀ s, Gives (returnType p n) s Returned

theorem gives_items_end {p : Place} {n : Nat} {c : Token} {us : List Token} {es : List Diagnostic} :
    Gives (items p c.kind n) ⟨c :: us, es⟩ fun ts vs => ts = [c] ∧ vs = [] := by
  cases n with
  | zero => exact gives_fail
  | succ n => exact accepts_items_end.gives

theorem gives_fields_end {p : Place} {n : Nat} {before : Bindings CaseValue} {c : Token} {us : List Token}
    {es : List Diagnostic} (hc : c.kind = .closeBrace) :
    Gives (fields p before n) ⟨c :: us, es⟩ fun ts fs => ts = [c] ∧ fs = before := by
  cases n with
  | zero => exact gives_fail
  | succ n => exact (accepts_fields_end hc).gives

theorem gives_throwsType {p : Place} (s : State) : Gives (throwsType p) s fun ts t =>
    (ts = [] ∧ t = .throws none) ∨
      ∃ e : Token, Enclosed .openParen .closeParen [e] ts ∧ e.kind = .string ∧ t = .throws (some e.text) := by
  unfold throwsType
  refine gives_take (fun o us ho => ?_) (gives_pure (.inl ⟨rfl, rfl⟩))
  refine gives_expect fun e us he => gives_expect fun c us hc => gives_pure ?_
  exact .inr ⟨e, ⟨o, c, ho, hc, rfl⟩, he, rfl⟩

theorem gives_unaryType {p : Place} (name : Token) (v : CaseValue) (s : State) :
    Gives (unaryType p name v) s fun ts t => ts = [] ∧
      ((name.text = "literal" ∧ ∃ d, v = .concrete d ∧ d.isContainer = false ∧ t = .ofDatum d) ∨
        (name.text = "array" ∧ t = .array v.type) ∨
        (name.text ≠ "literal" ∧ name.text ≠ "array" ∧ v.objectOrType = true ∧ t = v.type)) := by
  unfold unaryType
  split
  · next hname =>
    split
    · next t ht =>
      unfold literal? at ht
      split at ht
      · exact gives_pure ⟨rfl, .inl ⟨hname, _, rfl, rfl, (Option.some.inj ht).symm⟩⟩
      · exact gives_pure ⟨rfl, .inl ⟨hname, _, rfl, rfl, (Option.some.inj ht).symm⟩⟩
      · cases ht
    · exact gives_fail
  · next hname => exact gives_pure ⟨rfl, .inr (.inl ⟨hname, rfl⟩)⟩
  · next hliteral harray =>
    split
    · next t ht =>
      unfold objectType? at ht
      split at ht
      · exact gives_pure ⟨rfl, .inr (.inr ⟨hliteral, harray, rfl, (Option.some.inj ht).symm⟩)⟩
      · cases ht
      · exact gives_pure ⟨rfl, .inr (.inr ⟨hliteral, harray, rfl, (Option.some.inj ht).symm⟩)⟩
    · exact gives_fail

section

variable {p : Place} {n : Nat} (h : Grammatical p n)

include h

theorem gives_value (s : State) : Gives (value p (n + 1)) s (Derives CaseValue.objectOrType) := by
  obtain ⟨tokens, es⟩ := s
  unfold value
  apply gives_peek
  cases tokens with
  | nil => exact gives_fail
  | cons t us =>
    dsimp only [List.head?_cons]
    split
    · next ht =>
      refine gives_advance (gives_number.bind fun x s₁ => gives_pure ?_)
      rintro ts ⟨rfl, hx⟩
      exact .number ht hx
    · next hm =>
      refine gives_advance (gives_expect fun d us hd => gives_number.bind fun x s₁ => gives_pure ?_)
      rintro ts ⟨rfl, hx⟩
      exact .negative hm hd hx
    · next ht => exact gives_advance (gives_pure (.text ht))
    · next ho =>
      refine gives_advance ((h.items _ _).bind fun vs s₁ => gives_pure ?_)
      rintro ts ⟨parts, inner, c, hc, rfl, hs, hp, rfl⟩
      rw [container_eq, List.append_nil]
      exact .list ⟨t, c, ho, hc, rfl⟩ hs hp
    · next ho => exact gives_advance ((h.parenthesized _).mono fun ts v hv => hv t ho)
    · next ho =>
      refine gives_advance ((h.fields [] _).bind fun fs s₁ => gives_pure ?_)
      rintro ts ⟨fs, inner, c, hc, rfl, hs, hk, hf, rfl⟩
      rw [object_eq, List.append_nil]
      exact .object ⟨t, c, ho, hc, rfl⟩ hs hk hf
    · next ht =>
      apply gives_advance
      split
      · next v hv => exact gives_pure (.constant ht hv)
      · split
        · next htext =>
          refine gives_expect fun d us hd => gives_expect fun m us hm => (h.constructed m _).mono fun ts v hv => ?_
          exact hv [t, d, m] ⟨t, d, m, ht, htext, hd, hm, rfl, rfl⟩
        · exact gives_fail
    · exact gives_fail

theorem gives_parenthesized (s : State) : Gives (parenthesized p (n + 1)) s fun ts v =>
    ∀ o : Token, o.kind = .openParen → Derives CaseValue.objectOrType (o :: ts) v := by
  unfold parenthesized
  refine gives_take (fun c us hc => gives_pure fun o ho => .unit ⟨o, c, ho, hc, rfl⟩) ?_
  refine (h.value s).bind fun v s₁ => gives_take (fun c us hc => gives_pure ?_) (gives_expect fun comma us hk => ?_)
  · intro ts hv o ho
    exact .group ⟨o, c, ho, hc, rfl⟩ hv
  · refine (h.items _ _).bind fun vs s₂ => gives_pure ?_
    rintro us ⟨parts, inner, c, hc, rfl, hs, hp, rfl⟩ ts hv o ho
    rw [container_eq]
    refine .several ⟨o, c, ho, hc, ?_⟩ hv hk hs hp
    simp

theorem gives_items (closer : TokenKind) (s : State) : Gives (items p closer (n + 1)) s (Listed closer) := by
  unfold items
  refine gives_take (fun c us hc => gives_pure ⟨[], [], c, hc, rfl, .nil, by simp, rfl⟩) ?_
  refine (h.value s).bind fun v s₁ => gives_take (fun comma us hk => ?_) (gives_check gives_fail_next ?_)
  · refine (h.items closer _).bind fun vs s₂ => gives_pure ?_
    rintro us ⟨parts, inner, c, hc, rfl, hs, hp, rfl⟩ ts hv
    refine ⟨(ts, v) :: parts, ts ++ comma :: inner, c, hc, by simp, .cons hk hs, ?_, rfl⟩
    exact List.forall_mem_cons.mpr ⟨hv, hp⟩
  · rintro c us rfl hnext
    obtain ⟨tokens, es⟩ := s₁
    obtain rfl : tokens = c :: us := hnext
    refine gives_items_end.bind fun vs s₂ => gives_pure ?_
    rintro us ⟨rfl, rfl⟩ ts hv
    exact ⟨[(ts, v)], ts, c, rfl, by simp, .last, by simpa using hv, rfl⟩

theorem gives_fields (before : Bindings CaseValue) (s : State) :
    Gives (fields p before (n + 1)) s (Fielded before) := by
  unfold fields
  have hend (c : Token) (hc : c.kind = .closeBrace) : Fielded before [c] before :=
    ⟨[], [], c, hc, rfl, .nil, by simp, by simp, rfl⟩
  refine gives_take (fun c us hc => gives_pure (hend c hc)) (gives_peek ?_)
  obtain ⟨tokens, es⟩ := s
  cases tokens with
  | nil => exact gives_fail
  | cons key us =>
    refine gives_ite (fun hkey => gives_advance (gives_expect fun colon us hcolon => ?_)) fun _ => gives_fail
    have hwell (ts : List Token) (v : CaseValue) : (Field.mk key colon ts v).WellKeyed :=
      ⟨by simpa using hkey, hcolon⟩
    refine (h.value _).bind fun v s₁ => gives_take (fun comma us hk => ?_) (gives_check gives_fail_next ?_)
    · refine (h.fields _ _).mono ?_
      rintro us _ ⟨fs, inner, c, hc, rfl, hs, hwells, hf, rfl⟩ ts hv
      refine ⟨⟨key, colon, ts, v⟩ :: fs, key :: colon :: (ts ++ comma :: inner), c, hc, by simp, .cons hk hs, ?_, ?_,
        rfl⟩
      · exact List.forall_mem_cons.mpr ⟨hwell ts v, hwells⟩
      · exact List.forall_mem_cons.mpr ⟨hv, hf⟩
    · intro c us hc hnext
      obtain ⟨tokens, es⟩ := s₁
      obtain rfl : tokens = c :: us := hnext
      refine (gives_fields_end hc).mono ?_
      rintro us _ ⟨rfl, rfl⟩ ts hv
      exact ⟨[⟨key, colon, ts, v⟩], key :: colon :: ts, c, hc, by simp, .last, by simpa using hwell ts v,
        by simpa using hv, rfl⟩

theorem gives_returnType (s : State) : Gives (returnType p (n + 1)) s Returned := by
  unfold returnType
  refine gives_take (fun comma us hk => ?_) (gives_pure (.inl ⟨.inl rfl, rfl⟩))
  refine gives_isNext fun c => ?_
  split
  · exact gives_pure (.inl ⟨.inr (by simp [hk]), rfl⟩)
  · refine (h.value _).bind fun v s₁ => gives_pure fun ts hv => .inr ⟨comma, ts, v, hk, by simp, hv, rfl⟩

theorem gives_constructed (name : Token) (s : State) : Gives (constructed p name (n + 1)) s fun ts v =>
    ∀ head, Named name.text head → Derives CaseValue.objectOrType (head ++ ts) v := by
  unfold constructed
  split
  · next t ht =>
    refine gives_isNext fun c => gives_ite (fun _ => gives_peek gives_fail_bind) fun _ => gives_pure ?_
    intro head hn
    rw [List.append_nil]
    exact .placeholder hn ht
  split
  · next ht =>
    refine (gives_throwsType s).bind fun ty s₁ => gives_pure ?_
    rw [ht]
    rintro ts (⟨rfl, rfl⟩ | ⟨e, hw, he, rfl⟩) head hn
    · simpa using Derives.throws hn
    · rw [List.append_nil]
      exact .throwsNamed hn hw he
  · next ht =>
    refine gives_expect fun o us ho => gives_expect fun o' us' ho' => (h.items _ _).bind fun vs s₁ => ?_
    refine (h.returnType _).bind fun ty s₂ => gives_expect fun c us hc => gives_pure ?_
    rintro after hafter ts ⟨parts, inner, c', hc', rfl, hs, hp, rfl⟩ head hn
    rw [ht] at hn
    rw [List.map_map]
    have he : Enclosed .openBracket .closeBracket inner (o' :: (inner ++ [c'])) := ⟨o', c', ho', hc', rfl⟩
    obtain ⟨hafter, rfl⟩ | ⟨comma, us, v, hk, rfl, hv, rfl⟩ := hafter
    · exact .function hn ⟨o, c, ho, hc, by simp⟩ he hs hp hafter
    · exact .functionTo hn ⟨o, c, ho, hc, by simp⟩ he hs hp hk hv
  · next ht =>
    refine gives_expect fun o us ho => gives_expect fun o' us' ho' => (h.items _ _).bind fun vs s₁ => ?_
    refine gives_expect fun c us hc => gives_pure ?_
    rintro ts ⟨parts, inner, c', hc', rfl, hs, hp, rfl⟩ head hn
    rw [ht] at hn
    rw [List.map_map]
    exact .tuple hn ⟨o, c, ho, hc, by simp⟩ ⟨o', c', ho', hc', rfl⟩ hs hp
  · next ht =>
    refine gives_expect fun o us ho => (h.items _ _).bind fun vs s₁ => gives_pure ?_
    rintro ts ⟨parts, inner, c, hc, rfl, hs, hp, rfl⟩ head hn
    rw [ht] at hn
    rw [List.map_map]
    exact .union hn ⟨o, c, ho, hc, by simp⟩ hs hp
  · refine gives_ite (fun hname => gives_expect fun o us ho => (h.items _ _).bind fun vs s₁ => ?_) fun _ => ?_
    · split
      · next v =>
        refine (gives_unaryType name v s₁).bind fun ty s₂ => gives_pure ?_
        rintro us ⟨rfl, hty⟩ ts ⟨parts, inner, c, hc, rfl, hs, hp, hvs⟩ head hn
        obtain ⟨q, rfl, rfl⟩ := List.map_eq_singleton_iff.mp hvs.symm
        have hw : Enclosed .openParen .closeParen inner (o :: (inner ++ [c])) := ⟨o, c, ho, hc, rfl⟩
        have hq := hp q (by simp)
        simp only [List.append_nil]
        obtain ⟨ht, d, hd, hcontainer, rfl⟩ | ⟨ht, rfl⟩ | ⟨hliteral, harray, hobject, rfl⟩ := hty
        · rw [ht] at hn
          rw [hd] at hq
          exact .literal hn hw hs hq hcontainer
        · rw [ht] at hn
          exact .array hn hw hs hq
        · have ht : name.text = "object" := by simpa [hliteral, harray] using hname
          rw [ht] at hn
          exact .objectType hn hw hs hq hobject
      · exact gives_fail
    · refine gives_report rfl fun s₁ => gives_take (fun o us _ => ?_) (gives_pure trivial)
      exact (h.items _ _).bind fun vs s₂ => gives_pure fun _ _ => trivial

end

theorem grammatical (p : Place) (n : Nat) : Grammatical p n := by
  induction n with
  | zero => exact ⟨fun _ => gives_fail, fun _ _ => gives_fail, fun _ => gives_fail, fun _ _ => gives_fail,
      fun _ _ => gives_fail, fun _ => gives_fail⟩
  | succ n ih => exact ⟨gives_value ih, gives_items ih, gives_parenthesized ih, gives_fields ih, gives_constructed ih,
      gives_returnType ih⟩

theorem run_get {β : Type} {f : State → Reader β} {s : State} : (get >>= f : Reader β).run s = (f s).run s := rfl

theorem of_run_whole {p : Place} {span : Span} {s s' : State} {v : CaseValue}
    (h : (whole p span).run s = (.ok v, s')) :
    (value p (2 * s.tokens.length + 2)).run s = (.ok v, s') ∧ s'.tokens = [] := by
  unfold whole at h
  rw [run_get] at h
  dsimp only at h
  split at h
  · cases h
  obtain ⟨w, ⟨tokens, es⟩, hv, h⟩ := run_bind_eq_ok h
  cases tokens with
  | nil =>
    cases h
    exact ⟨hv, rfl⟩
  | cons t us => cases h

theorem accepts_whole {p : Place} {span : Span} {ts : List Token} {v : CaseValue}
    (h : Derives CaseValue.objectOrType ts v) : Accepts (whole p span) ts [] v := by
  have hne : ts.isEmpty = false := by
    obtain ⟨t, us, rfl, _⟩ := h.exists_head
    rfl
  intro es
  have hvalue : Accepts (value p (2 * ts.length + 2)) ts [] v := h.readable.accepts _ _ (by omega) rfl
  have hv := hvalue es
  rw [List.append_nil] at hv ⊢
  unfold whole
  rw [run_get]
  simp only [hne, Bool.false_eq_true, if_false]
  rw [run_bind_of_ok hv]
  rfl

end Casewise.Argument

namespace Casewise.ArgumentText

open Argument

variable (arg : ArgumentText)

def lexed : Lexed := Lexer.lex arg.span.startCol arg.text.toList

def place : Place := ⟨arg.span.file, arg.span.startLine, arg.lexed.stop⟩

theorem evaluate_of_lexical (h : arg.lexed.errors ≠ []) : arg.evaluate = (.symbolic .unknown, arg.lexed.errors.map
    fun e => (ArgumentError.lexical e.1).diagnostic (.point arg.span.file arg.span.startLine e.2)) := by
  have hempty : ¬ (Lexer.lex arg.span.startCol arg.text.toList).errors.isEmpty = true := by simpa [lexed] using h
  unfold evaluate
  exact if_neg hempty

theorem evaluate_of_ok {v : CaseValue} {s : State} (h : arg.lexed.errors = [])
    (hr : (whole arg.place arg.span).run ⟨arg.lexed.tokens, []⟩ = (.ok v, s)) : arg.evaluate = (v, s.errors) := by
  have hempty : (Lexer.lex arg.span.startCol arg.text.toList).errors.isEmpty = true := by simpa [lexed] using h
  unfold evaluate
  refine (if_pos hempty).trans ?_
  rw [← lexed, ← place]
  dsimp only
  rw [hr]

theorem evaluate_of_error {e : ArgumentError} {span : Span} {s : State} (h : arg.lexed.errors = [])
    (hr : (whole arg.place arg.span).run ⟨arg.lexed.tokens, []⟩ = (.error (e, span), s)) :
    arg.evaluate = (.symbolic .unknown, s.errors ++ [e.diagnostic span]) := by
  have hempty : (Lexer.lex arg.span.startCol arg.text.toList).errors.isEmpty = true := by simpa [lexed] using h
  unfold evaluate
  refine (if_pos hempty).trans ?_
  rw [← lexed, ← place]
  dsimp only
  rw [hr]

theorem evaluate_cases : (arg.lexed.errors = [] ∧ Derives CaseValue.objectOrType arg.lexed.tokens arg.evaluate.1 ∧
      arg.evaluate.2 = []) ∨ ∃ d ∈ arg.evaluate.2, d.code = "E110" := by
  by_cases hlex : arg.lexed.errors = []
  · cases hr : (whole arg.place arg.span).run ⟨arg.lexed.tokens, []⟩ with
    | mk r s =>
      cases r with
      | error e =>
        obtain ⟨e, span⟩ := e
        rw [evaluate_of_error arg hlex hr]
        exact .inr ⟨e.diagnostic span, by simp, rfl⟩
      | ok v =>
        rw [evaluate_of_ok arg hlex hr]
        obtain ⟨hv, hend⟩ := of_run_whole hr
        obtain ⟨⟨more, he, hcode⟩, hok⟩ := (grammatical _ _).value _ v s hv
        cases more with
        | nil =>
          obtain ⟨ts, ht, hd⟩ := hok he
          rw [hend, List.append_nil] at ht
          obtain rfl : arg.lexed.tokens = ts := ht
          exact .inl ⟨hlex, hd, he⟩
        | cons d more => exact .inr ⟨d, by simp [he], hcode d (by simp)⟩
  · rw [evaluate_of_lexical arg hlex]
    obtain ⟨e, he⟩ := List.exists_mem_of_ne_nil _ hlex
    exact .inr ⟨_, List.mem_map_of_mem he, rfl⟩

theorem evaluate_eq_iff (v : CaseValue) : arg.evaluate = (v, []) ↔
    arg.lexed.errors = [] ∧ Derives CaseValue.objectOrType arg.lexed.tokens v := by
  constructor
  · intro h
    obtain ⟨hlex, hd, _⟩ | ⟨d, hd, _⟩ := arg.evaluate_cases
    · rw [h] at hd
      exact ⟨hlex, hd⟩
    · rw [h] at hd
      cases hd
  · rintro ⟨hlex, hd⟩
    have hrun : (whole arg.place arg.span).run ⟨arg.lexed.tokens ++ [], []⟩ = (.ok v, ⟨[], []⟩) := accepts_whole hd []
    rw [List.append_nil] at hrun
    exact evaluate_of_ok arg hlex hrun

/-- An argument is evaluated without an error exactly when its text lexes and its tokens belong to the grammar; its
value is then what the grammar says. Every other argument has an error. The grammar is wider than it should be in one
place: `T.object` takes every type, and not only objects. What belongs to the narrower grammar has the same value. -/
theorem evaluate_accepts_exactly_grammar :
    (∀ v, arg.evaluate = (v, []) ↔ arg.lexed.errors = [] ∧ Derives CaseValue.objectOrType arg.lexed.tokens v) ∧
    (∀ v, arg.lexed.errors = [] → Derives CaseValue.isObject arg.lexed.tokens v → arg.evaluate = (v, [])) ∧
    ((¬ ∃ v, arg.lexed.errors = [] ∧ Derives CaseValue.objectOrType arg.lexed.tokens v) →
      ∃ d ∈ arg.evaluate.2, d.code = "E110") := by
  refine ⟨arg.evaluate_eq_iff, fun v hlex hd => ?_, fun h => ?_⟩
  · refine (arg.evaluate_eq_iff v).mpr ⟨hlex, hd.mono fun w hw => ?_⟩
    unfold CaseValue.isObject at hw
    split at hw
    · rfl
    · rfl
    · cases hw
  · obtain ⟨hlex, hd, _⟩ | herror := arg.evaluate_cases
    · exact absurd ⟨_, hlex, hd⟩ h
    · exact herror

theorem evaluate_accepts_exactly_grammar_of_objects :
    (ArgumentText.mk "T.object(\x7ba: true,\x7d)" (.onLine "f" 1 1 20)).evaluate =
      (.symbolic (.object [("a", .literal (.boolean true))]), []) ∧
    (ArgumentText.mk "T.object(T.number)" (.onLine "f" 1 1 18)).evaluate = (.symbolic .number, []) ∧
    ∃ d ∈ (ArgumentText.mk "" (.onLine "f" 1 1 0)).evaluate.2, d.code = "E110" := by
  refine ⟨?_, ?_, ?_⟩
  · have htokens : (ArgumentText.mk "T.object(\x7ba: true,\x7d)" (.onLine "f" 1 1 20)).lexed.tokens =
        [⟨.identifier, "T", 1, 1⟩, ⟨.dot, ".", 2, 2⟩, ⟨.identifier, "object", 3, 8⟩] ++
          [⟨.openParen, "(", 9, 9⟩, ⟨.openBrace, "\x7b", 10, 10⟩, ⟨.identifier, "a", 11, 11⟩, ⟨.colon, ":", 12, 12⟩,
            ⟨.identifier, "true", 14, 17⟩, ⟨.comma, ",", 18, 18⟩, ⟨.closeBrace, "\x7d", 19, 19⟩,
            ⟨.closeParen, ")", 20, 20⟩] := by
      decide +kernel
    refine (evaluate_accepts_exactly_grammar _).2.1 _ (by decide +kernel) ?_
    rw [htokens]
    let field : Field := ⟨⟨.identifier, "a", 11, 11⟩, ⟨.colon, ":", 12, 12⟩, [⟨.identifier, "true", 14, 17⟩],
      .concrete (.bool true)⟩
    have hfield : Derives CaseValue.isObject field.tokens field.value := .constant rfl rfl
    have hsep : Separated ([field].map Field.all) (field.all ++ [⟨.comma, ",", 18, 18⟩]) := .cons rfl .nil
    refine .objectType ⟨_, _, _, rfl, rfl, rfl, rfl, rfl, rfl⟩ ⟨_, _, rfl, rfl, rfl⟩ .last
      (.object ⟨_, _, rfl, rfl, rfl⟩ hsep ?_ ?_) rfl
    · simpa [field] using ⟨.inl rfl, rfl⟩
    · simpa using hfield
  · have htokens : (ArgumentText.mk "T.object(T.number)" (.onLine "f" 1 1 18)).lexed.tokens =
        [⟨.identifier, "T", 1, 1⟩, ⟨.dot, ".", 2, 2⟩, ⟨.identifier, "object", 3, 8⟩] ++
          [⟨.openParen, "(", 9, 9⟩, ⟨.identifier, "T", 10, 10⟩, ⟨.dot, ".", 11, 11⟩, ⟨.identifier, "number", 12, 17⟩,
            ⟨.closeParen, ")", 18, 18⟩] := by
      decide +kernel
    refine ((evaluate_accepts_exactly_grammar _).1 _).mpr ⟨by decide +kernel, ?_⟩
    rw [htokens]
    exact .objectType (v := .symbolic .number) ⟨_, _, _, rfl, rfl, rfl, rfl, rfl, rfl⟩ ⟨_, _, rfl, rfl, rfl⟩ .last
      (.placeholder ⟨_, _, _, rfl, rfl, rfl, rfl, rfl, rfl⟩ rfl) rfl
  · refine (evaluate_accepts_exactly_grammar _).2.2 ?_
    rintro ⟨v, _, hd⟩
    obtain ⟨t, us, ht, _⟩ := hd.exists_head
    have hnil : (ArgumentText.mk "" (.onLine "f" 1 1 0)).lexed.tokens = [] := by decide +kernel
    rw [hnil] at ht
    cases ht

end Casewise.ArgumentText
