import Casewise.Directive.Argument
import Casewise.Proofs.Brackets

namespace Casewise

namespace CaseValue

def sequence (vs : List CaseValue) : CaseValue :=
  if vs.any isSymbolic then .symbolic (.array (.union (vs.map type))) else .concrete (.list (vs.filterMap datum?))

def keyed (fs : Bindings CaseValue) : CaseValue :=
  if fs.any (·.2.isSymbolic) then .symbolic (.record (fs.map fun f => (f.1, f.2.type)))
  else .concrete (.record (fs.filterMap fun f => f.2.datum?.map (f.1, ·)))

def objectOrType : CaseValue → Bool
  | .concrete (.record _) => true
  | .concrete _ => false
  | .symbolic _ => true

def isObject : CaseValue → Bool
  | .concrete (.record _) => true
  | .symbolic (.object _) => true
  | _ => false

end CaseValue

def Datum.isContainer : Datum → Bool
  | .list _ => true
  | .record _ => true
  | _ => false

def TokenKind.startsValue : TokenKind → Bool
  | .number => true
  | .minus => true
  | .string => true
  | .identifier => true
  | .openBracket => true
  | .openParen => true
  | .openBrace => true
  | _ => false

namespace Argument

def numberOf? (t : Token) : Option Number := Numeral.number? (t.text.toList.filter (· != '_'))

def Enclosed (opener closer : TokenKind) (inner ts : List Token) : Prop :=
  ∃ o c, o.kind = opener ∧ c.kind = closer ∧ ts = o :: (inner ++ [c])

def Named (name : String) (ts : List Token) : Prop :=
  ∃ t d n, t.kind = .identifier ∧ t.text = "T" ∧ d.kind = .dot ∧ n.kind = .identifier ∧ n.text = name ∧ ts = [t, d, n]

structure Field where
  key : Token
  colon : Token
  tokens : List Token
  value : CaseValue

def Field.all (f : Field) : List Token := f.key :: f.colon :: f.tokens

def Field.binding (f : Field) : String × CaseValue := (f.key.text, f.value)

structure Field.WellKeyed (f : Field) : Prop where
  key : f.key.kind = .identifier ∨ f.key.kind = .string
  colon : f.colon.kind = .colon

/-- The tokens are an argument that denotes the value. The condition says which values `T.object` takes. -/
inductive Derives (accepts : CaseValue → Bool) : List Token → CaseValue → Prop
  | number {t : Token} {x : Number} (ht : t.kind = .number) (hx : numberOf? t = some x) :
      Derives accepts [t] (.concrete (.scalar (.number x)))
  | negative {m t : Token} {x : Number} (hm : m.kind = .minus) (ht : t.kind = .number) (hx : numberOf? t = some x) :
      Derives accepts [m, t] (.concrete (.scalar (.number x.negate)))
  | text {t : Token} (ht : t.kind = .string) : Derives accepts [t] (.concrete (.text t.text))
  | constant {t : Token} {v : CaseValue} (ht : t.kind = .identifier) (hv : constant? t.text = some v) :
      Derives accepts [t] v
  | list {parts : List (List Token × CaseValue)} {inner ts : List Token}
      (hw : Enclosed .openBracket .closeBracket inner ts) (hs : Separated (parts.map Prod.fst) inner)
      (hp : ∀ q ∈ parts, Derives accepts q.1 q.2) : Derives accepts ts (.sequence (parts.map Prod.snd))
  | unit {ts : List Token} (hw : Enclosed .openParen .closeParen [] ts) : Derives accepts ts (.concrete (.list []))
  | group {inner ts : List Token} {v : CaseValue} (hw : Enclosed .openParen .closeParen inner ts)
      (hv : Derives accepts inner v) : Derives accepts ts v
  | several {parts : List (List Token × CaseValue)} {first rest ts : List Token} {comma : Token} {v : CaseValue}
      (hw : Enclosed .openParen .closeParen (first ++ comma :: rest) ts) (hv : Derives accepts first v)
      (hc : comma.kind = .comma) (hs : Separated (parts.map Prod.fst) rest)
      (hp : ∀ q ∈ parts, Derives accepts q.1 q.2) : Derives accepts ts (.sequence (v :: parts.map Prod.snd))
  | object {fields : List Field} {inner ts : List Token} (hw : Enclosed .openBrace .closeBrace inner ts)
      (hs : Separated (fields.map Field.all) inner) (hk : ∀ f ∈ fields, f.WellKeyed)
      (hf : ∀ f ∈ fields, Derives accepts f.tokens f.value) :
      Derives accepts ts (.keyed (.ofPairs (fields.map Field.binding)))
  | placeholder {name : String} {t : Ty} {ts : List Token} (hn : Named name ts) (ht : placeholder? name = some t) :
      Derives accepts ts (.symbolic t)
  | throws {ts : List Token} (hn : Named "throws" ts) : Derives accepts ts (.symbolic (.throws none))
  | throwsNamed {head args : List Token} {e : Token} (hn : Named "throws" head)
      (hw : Enclosed .openParen .closeParen [e] args) (he : e.kind = .string) :
      Derives accepts (head ++ args) (.symbolic (.throws (some e.text)))
  | union {parts : List (List Token × CaseValue)} {head inner args : List Token} (hn : Named "union" head)
      (hw : Enclosed .openParen .closeParen inner args) (hs : Separated (parts.map Prod.fst) inner)
      (hp : ∀ q ∈ parts, Derives accepts q.1 q.2) :
      Derives accepts (head ++ args) (.symbolic (.union (parts.map (·.2.type))))
  | literal {head inner args ts : List Token} {d : Datum} (hn : Named "literal" head)
      (hw : Enclosed .openParen .closeParen inner args) (hs : Separated [ts] inner)
      (hv : Derives accepts ts (.concrete d)) (hd : d.isContainer = false) :
      Derives accepts (head ++ args) (.symbolic (.ofDatum d))
  | array {head inner args ts : List Token} {v : CaseValue} (hn : Named "array" head)
      (hw : Enclosed .openParen .closeParen inner args) (hs : Separated [ts] inner) (hv : Derives accepts ts v) :
      Derives accepts (head ++ args) (.symbolic (.array v.type))
  | objectType {head inner args ts : List Token} {v : CaseValue} (hn : Named "object" head)
      (hw : Enclosed .openParen .closeParen inner args) (hs : Separated [ts] inner) (hv : Derives accepts ts v)
      (ha : accepts v = true) : Derives accepts (head ++ args) (.symbolic v.type)
  | tuple {parts : List (List Token × CaseValue)} {head inner elements args : List Token} (hn : Named "tuple" head)
      (hw : Enclosed .openParen .closeParen elements args) (he : Enclosed .openBracket .closeBracket inner elements)
      (hs : Separated (parts.map Prod.fst) inner) (hp : ∀ q ∈ parts, Derives accepts q.1 q.2) :
      Derives accepts (head ++ args) (.symbolic (.tuple (parts.map (·.2.type))))
  | function {parts : List (List Token × CaseValue)} {head inner params after args : List Token} (hn : Named "fn" head)
      (hw : Enclosed .openParen .closeParen (params ++ after) args)
      (he : Enclosed .openBracket .closeBracket inner params) (hs : Separated (parts.map Prod.fst) inner)
      (hp : ∀ q ∈ parts, Derives accepts q.1 q.2) (ha : after.map Token.kind = [] ∨ after.map Token.kind = [.comma]) :
      Derives accepts (head ++ args) (.symbolic (.function (parts.map (·.2.type)) .unknown))
  | functionTo {parts : List (List Token × CaseValue)} {head inner params result args : List Token} {comma : Token}
      {v : CaseValue} (hn : Named "fn" head) (hw : Enclosed .openParen .closeParen (params ++ comma :: result) args)
      (he : Enclosed .openBracket .closeBracket inner params) (hs : Separated (parts.map Prod.fst) inner)
      (hp : ∀ q ∈ parts, Derives accepts q.1 q.2) (hc : comma.kind = .comma) (hv : Derives accepts result v) :
      Derives accepts (head ++ args) (.symbolic (.function (parts.map (·.2.type)) v.type))

variable {accepts : CaseValue → Bool} {ts : List Token} {v : CaseValue}

theorem Derives.mono {wider : CaseValue → Bool} (hw : ∀ v, accepts v = true → wider v = true)
    (h : Derives accepts ts v) : Derives wider ts v := by
  induction h with
  | number ht hx => exact .number ht hx
  | negative hm ht hx => exact .negative hm ht hx
  | text ht => exact .text ht
  | constant ht hv => exact .constant ht hv
  | list hw hs _ ih => exact .list hw hs ih
  | unit hw => exact .unit hw
  | group hw _ ih => exact .group hw ih
  | several hw _ hc hs _ ihv ih => exact .several hw ihv hc hs ih
  | object hw hs hk _ ih => exact .object hw hs hk ih
  | placeholder hn ht => exact .placeholder hn ht
  | throws hn => exact .throws hn
  | throwsNamed hn hw he => exact .throwsNamed hn hw he
  | union hn hw hs _ ih => exact .union hn hw hs ih
  | literal hn hw hs _ hd ih => exact .literal hn hw hs ih hd
  | array hn hw hs _ ih => exact .array hn hw hs ih
  | objectType hn hb hs _ ha ih => exact .objectType hn hb hs ih (hw _ ha)
  | tuple hn hw he hs _ ih => exact .tuple hn hw he hs ih
  | function hn hw he hs _ ha ih => exact .function hn hw he hs ih ha
  | functionTo hn hw he hs _ hc _ ih ihv => exact .functionTo hn hw he hs ih hc ihv

theorem Derives.exists_head (h : Derives accepts ts v) : ∃ t us, ts = t :: us ∧ t.kind.startsValue = true := by
  have henclosed {o c : TokenKind} {inner ts : List Token} (h : Enclosed o c inner ts) (ho : o.startsValue = true) :
      ∃ t us, ts = t :: us ∧ t.kind.startsValue = true := by
    obtain ⟨t, _, rfl, _, rfl⟩ := h
    exact ⟨t, _, rfl, ho⟩
  have hnamed {name : String} {head : List Token} (args : List Token) (h : Named name head) :
      ∃ t us, head ++ args = t :: us ∧ t.kind.startsValue = true := by
    obtain ⟨t, d, n, ht, _, _, _, _, rfl⟩ := h
    exact ⟨t, _, rfl, by rw [ht]; rfl⟩
  cases h with
  | number ht => exact ⟨_, _, rfl, by rw [ht]; rfl⟩
  | negative hm => exact ⟨_, _, rfl, by rw [hm]; rfl⟩
  | text ht => exact ⟨_, _, rfl, by rw [ht]; rfl⟩
  | constant ht => exact ⟨_, _, rfl, by rw [ht]; rfl⟩
  | list hw | unit hw | group hw | several hw | object hw => exact henclosed hw rfl
  | placeholder hn | throws hn => simpa using hnamed [] hn
  | throwsNamed hn | union hn | literal hn | array hn | objectType hn | tuple hn | function hn | functionTo hn =>
    exact hnamed _ hn

theorem mapM_option {α β : Type} (f : α → Option β) (as : List α) :
    as.mapM f = if as.any (fun a => (f a).isNone) then none else some (as.filterMap f) := by
  induction as with
  | nil => rfl
  | cons a as ih =>
    rw [List.mapM_cons, ih]
    cases h : f a with
    | none => simp [h]
    | some b => by_cases hn : as.any (fun a => (f a).isNone) = true <;> simp [h, hn]

theorem container_eq (vs : List CaseValue) : container vs = .sequence vs := by
  have hnone : (fun v : CaseValue => v.datum?.isNone) = CaseValue.isSymbolic := by
    funext v
    cases v <;> rfl
  rw [container, mapM_option, hnone, CaseValue.sequence]
  split_ifs <;> rfl

theorem object_eq (fs : Bindings CaseValue) : object fs = .keyed fs := by
  have hnone : (fun f : String × CaseValue => (f.2.datum?.map (f.1, ·)).isNone) = (·.2.isSymbolic) := by
    funext f
    obtain ⟨k, v⟩ := f
    cases v <;> rfl
  rw [object, mapM_option, hnone, CaseValue.keyed]
  split_ifs <;> rfl

def Accepts {α : Type} (x : Reader α) (ts rest : List Token) (a : α) : Prop :=
  ∀ es, x.run ⟨ts ++ rest, es⟩ = (.ok a, ⟨rest, es⟩)

section

variable {α β : Type} {x : Reader α} {a : α} {f : α → Reader β} {b : β} {t : Token} {us rest : List Token} {p : Place}
  {kind : TokenKind}

theorem run_bind_of_ok {s s' : State} (h : x.run s = (.ok a, s')) : (x >>= f).run s = (f a).run s' := by
  have hs : (x >>= f).run s = ExceptT.bindCont f (x.run s).1 (x.run s).2 := rfl
  rw [hs, h]
  rfl

theorem accepts_pure : Accepts (pure a) [] rest a := fun _ => rfl

theorem Accepts.bind (hx : Accepts x ts (us ++ rest) a) (hf : Accepts (f a) us rest b) :
    Accepts (x >>= f) (ts ++ us) rest b := by
  intro es
  rw [List.append_assoc, run_bind_of_ok (hx es)]
  exact hf es

theorem Accepts.last (hx : Accepts x ts rest a) (hf : Accepts (f a) [] rest b) : Accepts (x >>= f) ts rest b := by
  have hbind : Accepts (x >>= f) (ts ++ []) rest b := Accepts.bind hx hf
  rwa [List.append_nil] at hbind

theorem accepts_peek {f : Option Token → Reader β} (h : Accepts (f (ts ++ rest).head?) ts rest b) :
    Accepts (peek >>= f) ts rest b := h

theorem accepts_advance {f : Unit → Reader β} (h : Accepts (f ()) ts rest b) :
    Accepts (advance >>= f) (t :: ts) rest b := h

theorem accepts_isNext {f : Bool → Reader β} (h : Accepts (f ((ts ++ rest).head?.any (·.kind == kind))) ts rest b) :
    Accepts (isNext kind >>= f) ts rest b := h

theorem accepts_next {x y : Reader β} (ht : t.kind = kind) (h : Accepts x (t :: ts) rest b) :
    Accepts (isNext kind >>= fun c => if c = true then x else y) (t :: ts) rest b := by
  apply accepts_isNext
  simpa [ht] using h

theorem accepts_other {x y : Reader β} (hk : (ts ++ rest).head?.any (·.kind == kind) = false)
    (h : Accepts y ts rest b) : Accepts (isNext kind >>= fun c => if c = true then x else y) ts rest b := by
  apply accepts_isNext
  rw [hk]
  exact h

theorem accepts_closer {x y : Reader β} (ht : t.kind = kind) (h : Accepts y (t :: ts) rest b) :
    Accepts (isNext kind >>= fun c => if (!c) = true then x else y) (t :: ts) rest b := by
  apply accepts_isNext
  simpa [ht] using h

theorem accepts_expect {f : Token → Reader β} {what : String} (ht : t.kind = kind) (h : Accepts (f t) ts rest b) :
    Accepts (expect p kind what >>= f) (t :: ts) rest b := by
  intro es
  have hrun : (expect p kind what).run ⟨t :: (ts ++ rest), es⟩ = (.ok t, ⟨ts ++ rest, es⟩) := by
    have hs : (expect p kind what).run ⟨t :: (ts ++ rest), es⟩ =
      (if t.kind = kind then (advance >>= fun _ => pure t : Reader Token) else
        fail (.expected what (some t.text)) (p.tokenSpan t)).run ⟨t :: (ts ++ rest), es⟩ := rfl
    rw [hs, if_pos ht]
    rfl
  rw [List.cons_append, run_bind_of_ok hrun]
  exact h es

theorem accepts_number {f : Number → Reader β} {n : Number} (hn : numberOf? t = some n) (h : Accepts (f n) ts rest b) :
    Accepts (number p t >>= f) ts rest b := by
  have hnumber : number p t = pure n := by
    unfold number
    rw [numberOf?] at hn
    rw [hn]
  rw [hnumber]
  exact h

end

structure Readable (p : Place) (ts : List Token) (v : CaseValue) : Prop where
  head : ∃ t us, ts = t :: us ∧ t.kind.startsValue = true
  accepts : ∀ n rest, 2 * ts.length ≤ n → rest.head?.any (·.kind == .openParen) = false → Accepts (value p n) ts rest v

variable {p : Place} {rest inner : List Token} {c : Token} {n : Nat}

theorem not_next {k : TokenKind} (h : ∃ t us, ts = t :: us ∧ t.kind.startsValue = true) (hk : k.startsValue = false) :
    (ts ++ rest).head?.any (·.kind == k) = false := by
  obtain ⟨t, us, rfl, ht⟩ := h
  have hne : t.kind ≠ k := by
    rintro rfl
    rw [ht] at hk
    cases hk
  simpa using hne

theorem Readable.length_pos (h : Readable p ts v) : 0 < ts.length := by
  obtain ⟨t, us, rfl, _⟩ := h.head
  exact Nat.zero_lt_succ _

theorem startsValue_of_isCloser {k : TokenKind} (h : k.isCloser = true) : k.startsValue = false := by
  cases k <;> simp_all [TokenKind.isCloser, TokenKind.startsValue]

-- With a step left a reader is its body by computation: the proofs below do not unfold it.
theorem accepts_items_end : Accepts (items p c.kind (n + 1)) [c] rest [] := by
  exact accepts_next rfl (accepts_advance accepts_pure)

theorem accepts_items {parts : List (List Token × CaseValue)} (hs : Separated (parts.map Prod.fst) inner)
    (hc : c.kind.isCloser = true) (hp : ∀ q ∈ parts, Readable p q.1 q.2) (hn : 2 * inner.length < n) :
    Accepts (items p c.kind n) (inner ++ [c]) rest (parts.map Prod.snd) := by
  have hstart := startsValue_of_isCloser hc
  have hcomma : c.kind ≠ .comma := fun hk => by simp [hk, TokenKind.isCloser] at hc
  have hcall : c.kind ≠ .openParen := fun hk => by simp [hk, TokenKind.isCloser] at hc
  induction parts generalizing inner n with
  | nil =>
    obtain rfl := separated_nil.mp hs
    obtain ⟨n, rfl⟩ : ∃ m, n = m + 1 := ⟨n - 1, by omega⟩
    exact accepts_items_end
  | cons q parts ih =>
    obtain ⟨hq, hrest⟩ := List.forall_mem_cons.mp hp
    have hpos := hq.length_pos
    obtain ⟨n, rfl⟩ : ∃ m, n = m + 1 := ⟨n - 1, by omega⟩
    obtain ⟨hnil, rfl⟩ | ⟨comma, us, hk, rfl, hsep⟩ := separated_cons.mp hs
    · obtain rfl := List.map_eq_nil_iff.mp hnil
      refine accepts_other (by rw [List.append_assoc]; exact not_next hq.head hstart) ?_
      refine (hq.accepts n _ (by omega) (by simpa using hcall)).bind ?_
      refine accepts_other (by simpa using hcomma) (accepts_closer rfl ?_)
      obtain ⟨n, rfl⟩ : ∃ m, n = m + 1 := ⟨n - 1, by omega⟩
      exact accepts_items_end.last accepts_pure
    · rw [List.append_assoc, List.cons_append]
      rw [List.length_append, List.length_cons] at hn
      refine accepts_other (by rw [List.append_assoc]; exact not_next hq.head hstart) ?_
      refine (hq.accepts n _ (by omega) (by simp [hk])).bind ?_
      refine accepts_next hk (accepts_advance ?_)
      exact (ih hsep hrest (by omega)).last accepts_pure

theorem accepts_fields_end {before : Bindings CaseValue} (hc : c.kind = .closeBrace) :
    Accepts (fields p before (n + 1)) [c] rest before := by
  exact accepts_next hc (accepts_advance accepts_pure)

theorem accepts_fields {fs : List Field} {before : Bindings CaseValue} (hs : Separated (fs.map Field.all) inner)
    (hc : c.kind = .closeBrace) (hk : ∀ f ∈ fs, f.WellKeyed) (hf : ∀ f ∈ fs, Readable p f.tokens f.value)
    (hn : 2 * inner.length < n) :
    Accepts (fields p before n) (inner ++ [c]) rest (before.update (fs.map Field.binding)) := by
  induction fs generalizing inner n before with
  | nil =>
    obtain rfl := separated_nil.mp hs
    obtain ⟨n, rfl⟩ : ∃ m, n = m + 1 := ⟨n - 1, by omega⟩
    exact accepts_fields_end hc
  | cons f fs ih =>
    obtain ⟨hwell, hkrest⟩ := List.forall_mem_cons.mp hk
    obtain ⟨hq, hrest⟩ := List.forall_mem_cons.mp hf
    obtain ⟨n, rfl⟩ : ∃ m, n = m + 1 := ⟨n - 1, by omega⟩
    have hkey : (f.key.kind == .identifier || f.key.kind == .string) = true := by simpa using hwell.key
    have hnot : f.key.kind ≠ .closeBrace := by
      intro h
      simp [h] at hkey
    -- what comes before the value of the field, whatever comes after it
    have hstart {us : List Token} {b : Bindings CaseValue} (h : Accepts (value p n >>= fun v => do
        if ← isNext .comma then advance
        else if !(← isNext .closeBrace) then fail (.noFieldSeparator (← nextText)) (p.tokenSpan? (← peek))
        fields p (before.set f.key.text v) n) (f.tokens ++ us) rest b) :
        Accepts (fields p before (n + 1)) (f.all ++ us) rest b := by
      refine accepts_other (by simpa [Field.all] using hnot) (accepts_peek ?_)
      simp only [Field.all, List.cons_append, List.head?_cons, Option.any_some, hkey, if_true]
      exact accepts_advance (accepts_expect hwell.colon h)
    obtain ⟨hnil, rfl⟩ | ⟨comma, us, hcomma, rfl, hsep⟩ := separated_cons.mp hs
    · obtain rfl := List.map_eq_nil_iff.mp hnil
      simp only [Field.all, List.length_cons] at hn
      refine hstart ((hq.accepts n _ (by omega) (by simp [hc])).bind ?_)
      refine accepts_other (by simp [hc]) (accepts_closer hc ?_)
      obtain ⟨n, rfl⟩ : ∃ m, n = m + 1 := ⟨n - 1, by omega⟩
      exact accepts_fields_end hc
    · simp only [Field.all, List.length_append, List.length_cons] at hn
      rw [List.append_assoc, List.cons_append]
      refine hstart ((hq.accepts n _ (by omega) (by simp [hcomma])).bind ?_)
      exact accepts_next hcomma (accepts_advance (ih hsep hkrest hrest (by omega)))

theorem accepts_named {name : String} {head args : List Token} (hn : Named name head)
    (h : ∀ t : Token, t.text = name → Accepts (constructed p t n) args rest v) :
    Accepts (value p (n + 1)) (head ++ args) rest v := by
  obtain ⟨t, d, m, ht, htext, hd, hm, hname, rfl⟩ := hn
  apply accepts_peek
  simp only [List.cons_append, List.head?_cons, ht, htext, constant?, if_true]
  exact accepts_advance (accepts_expect hd (accepts_expect hm (h m hname)))

theorem accepts_placeholder {t : Token} {ty : Ty} (ht : placeholder? t.text = some ty)
    (hr : rest.head?.any (·.kind == .openParen) = false) :
    Accepts (constructed p t (n + 1)) [] rest (.symbolic ty) := by
  unfold constructed
  simp only [ht]
  exact accepts_other hr accepts_pure

theorem accepts_throws {t : Token} (ht : t.text = "throws") (hr : rest.head?.any (·.kind == .openParen) = false) :
    Accepts (constructed p t (n + 1)) [] rest (.symbolic (.throws none)) := by
  obtain ⟨kind, text, first, last⟩ := t
  obtain rfl : text = "throws" := ht
  exact Accepts.last (accepts_other hr accepts_pure) accepts_pure

theorem accepts_throwsNamed {t e : Token} {args : List Token} (ht : t.text = "throws")
    (hw : Enclosed .openParen .closeParen [e] args) (he : e.kind = .string) :
    Accepts (constructed p t (n + 1)) args rest (.symbolic (.throws (some e.text))) := by
  obtain ⟨o, c, ho, hc, rfl⟩ := hw
  obtain ⟨kind, text, first, last⟩ := t
  obtain rfl : text = "throws" := ht
  refine Accepts.last (accepts_next ho (accepts_advance ?_)) accepts_pure
  exact accepts_expect he (accepts_expect hc accepts_pure)

section

variable {t : Token} {parts : List (List Token × CaseValue)} {args : List Token}
  (hs : Separated (parts.map Prod.fst) inner) (hp : ∀ q ∈ parts, Readable p q.1 q.2)

include hs hp

theorem accepts_union (ht : t.text = "union") (hw : Enclosed .openParen .closeParen inner args)
    (hn : 2 * inner.length < n) :
    Accepts (constructed p t (n + 1)) args rest (.symbolic (.union (parts.map (·.2.type)))) := by
  obtain ⟨o, c, ho, hc, rfl⟩ := hw
  have hitems : Accepts (items p .closeParen n) (inner ++ [c]) rest (parts.map Prod.snd) := by
    rw [← hc]
    exact accepts_items hs (by rw [hc]; rfl) hp hn
  obtain ⟨kind, text, first, last⟩ := t
  obtain rfl : text = "union" := ht
  refine accepts_expect ho (hitems.last ?_)
  rw [List.map_map]
  exact accepts_pure

theorem accepts_tuple {elements : List Token} (ht : t.text = "tuple")
    (hw : Enclosed .openParen .closeParen elements args) (he : Enclosed .openBracket .closeBracket inner elements)
    (hn : 2 * inner.length < n) :
    Accepts (constructed p t (n + 1)) args rest (.symbolic (.tuple (parts.map (·.2.type)))) := by
  obtain ⟨o, c, ho, hc, rfl⟩ := hw
  obtain ⟨o', c', ho', hc', rfl⟩ := he
  have hitems : Accepts (items p .closeBracket n) (inner ++ [c']) (c :: rest) (parts.map Prod.snd) := by
    rw [← hc']
    exact accepts_items hs (by rw [hc']; rfl) hp hn
  obtain ⟨kind, text, first, last⟩ := t
  obtain rfl : text = "tuple" := ht
  refine accepts_expect ho (accepts_expect ho' (hitems.bind (accepts_expect hc ?_)))
  rw [List.map_map]
  exact accepts_pure

theorem accepts_function {params after : List Token} {result : Ty} (ht : t.text = "fn")
    (hw : Enclosed .openParen .closeParen (params ++ after) args)
    (he : Enclosed .openBracket .closeBracket inner params) (hn : 2 * inner.length < n)
    (hr : ∀ c : Token, c.kind = .closeParen → Accepts (returnType p n) after (c :: rest) result) :
    Accepts (constructed p t (n + 1)) args rest (.symbolic (.function (parts.map (·.2.type)) result)) := by
  obtain ⟨o, c, ho, hc, rfl⟩ := hw
  obtain ⟨o', c', ho', hc', rfl⟩ := he
  have hitems : Accepts (items p .closeBracket n) (inner ++ [c']) (after ++ [c] ++ rest) (parts.map Prod.snd) := by
    rw [← hc']
    exact accepts_items hs (by rw [hc']; rfl) hp hn
  obtain ⟨kind, text, first, last⟩ := t
  obtain rfl : text = "fn" := ht
  have hshape : (o' :: (inner ++ [c']) ++ after) ++ [c] = o' :: ((inner ++ [c']) ++ (after ++ [c])) := by simp
  rw [hshape]
  refine accepts_expect ho (accepts_expect ho' (hitems.bind ((hr c hc).bind (accepts_expect hc ?_))))
  rw [List.map_map]
  exact accepts_pure

end

theorem accepts_unary {t : Token} {ts args : List Token} {ty : Ty}
    (ht : t.text = "literal" ∨ t.text = "array" ∨ t.text = "object") (hw : Enclosed .openParen .closeParen inner args)
    (hs : Separated [ts] inner) (hv : Readable p ts v) (hn : 2 * inner.length < n) (hty : unaryType p t v = pure ty) :
    Accepts (constructed p t (n + 1)) args rest (.symbolic ty) := by
  obtain ⟨o, c, ho, hc, rfl⟩ := hw
  have hitems : Accepts (items p .closeParen n) (inner ++ [c]) rest [v] := by
    rw [← hc]
    have hparts : Separated ([(ts, v)].map Prod.fst) inner := hs
    exact accepts_items hparts (by rw [hc]; rfl) (by simpa using hv) hn
  have hlast : Accepts (unaryType p t v >>= fun ty => pure (CaseValue.symbolic ty)) [] rest (CaseValue.symbolic ty) := by
    rw [hty]
    exact accepts_pure
  obtain ⟨kind, text, first, last⟩ := t
  rcases ht with ht | ht | ht
  · obtain rfl : text = "literal" := ht
    exact accepts_expect ho (hitems.last hlast)
  · obtain rfl : text = "array" := ht
    exact accepts_expect ho (hitems.last hlast)
  · obtain rfl : text = "object" := ht
    exact accepts_expect ho (hitems.last hlast)

theorem accepts_returnType_none {after : List Token} (hc : c.kind = .closeParen)
    (ha : after.map Token.kind = [] ∨ after.map Token.kind = [.comma]) :
    Accepts (returnType p (n + 1)) after (c :: rest) .unknown := by
  obtain ha | ha := ha
  · obtain rfl := List.map_eq_nil_iff.mp ha
    exact accepts_other (by simp [hc]) accepts_pure
  · obtain ⟨comma, us, rfl, hcomma, hus⟩ := List.map_eq_cons_iff.mp ha
    obtain rfl := List.map_eq_nil_iff.mp hus
    refine accepts_next hcomma (accepts_advance (accepts_isNext ?_))
    simp only [List.nil_append, List.head?_cons, Option.any_some, hc, beq_self_eq_true, if_true]
    exact accepts_pure

theorem accepts_returnType {comma : Token} (hcomma : comma.kind = .comma) (hc : c.kind = .closeParen)
    (hv : Readable p ts v) (hn : 2 * ts.length ≤ n) :
    Accepts (returnType p (n + 1)) (comma :: ts) (c :: rest) v.type := by
  refine accepts_next hcomma (accepts_advance (accepts_other (not_next hv.head rfl) ?_))
  exact (hv.accepts n _ hn (by simp [hc])).last accepts_pure

theorem Enclosed.length {o c : TokenKind} (h : Enclosed o c inner ts) : ts.length = inner.length + 2 := by
  obtain ⟨_, _, _, _, rfl⟩ := h
  simp

theorem Named.length {name : String} (h : Named name ts) : ts.length = 3 := by
  obtain ⟨_, _, _, _, _, _, _, _, rfl⟩ := h
  rfl

theorem accepts_list {parts : List (List Token × CaseValue)} (hw : Enclosed .openBracket .closeBracket inner ts)
    (hs : Separated (parts.map Prod.fst) inner) (hp : ∀ q ∈ parts, Readable p q.1 q.2) (hn : 2 * inner.length < n) :
    Accepts (value p (n + 1)) ts rest (.sequence (parts.map Prod.snd)) := by
  obtain ⟨o, c, ho, hc, rfl⟩ := hw
  have hitems : Accepts (items p .closeBracket n) (inner ++ [c]) rest (parts.map Prod.snd) := by
    rw [← hc]
    exact accepts_items hs (by rw [hc]; rfl) hp hn
  apply accepts_peek
  simp only [List.cons_append, List.head?_cons, ho]
  refine accepts_advance (hitems.last ?_)
  rw [container_eq]
  exact accepts_pure

theorem accepts_object {fs : List Field} (hw : Enclosed .openBrace .closeBrace inner ts)
    (hs : Separated (fs.map Field.all) inner) (hk : ∀ f ∈ fs, f.WellKeyed)
    (hf : ∀ f ∈ fs, Readable p f.tokens f.value) (hn : 2 * inner.length < n) :
    Accepts (value p (n + 1)) ts rest (.keyed (.ofPairs (fs.map Field.binding))) := by
  obtain ⟨o, c, ho, hc, rfl⟩ := hw
  apply accepts_peek
  simp only [List.cons_append, List.head?_cons, ho]
  refine accepts_advance ((accepts_fields hs hc hk hf hn).last ?_)
  rw [object_eq]
  exact accepts_pure

theorem accepts_parenthesis {c : TokenKind} (hw : Enclosed .openParen c inner ts)
    (h : ∀ t : Token, t.kind = c → Accepts (parenthesized p n) (inner ++ [t]) rest v) :
    Accepts (value p (n + 1)) ts rest v := by
  obtain ⟨o, t, ho, ht, rfl⟩ := hw
  apply accepts_peek
  simp only [List.cons_append, List.head?_cons, ho]
  exact accepts_advance (h t ht)

theorem accepts_unit (hc : c.kind = .closeParen) :
    Accepts (parenthesized p (n + 1)) ([] ++ [c]) rest (.concrete (.list [])) := by
  exact accepts_next hc (accepts_advance accepts_pure)

theorem accepts_group (hc : c.kind = .closeParen) (hv : Readable p ts v) (hn : 2 * ts.length ≤ n) :
    Accepts (parenthesized p (n + 1)) (ts ++ [c]) rest v := by
  refine accepts_other (by rw [List.append_assoc]; exact not_next hv.head rfl) ?_
  refine (hv.accepts n _ hn (by simp [hc])).bind ?_
  exact accepts_next hc (accepts_advance accepts_pure)

theorem accepts_several {parts : List (List Token × CaseValue)} {comma : Token} (hc : c.kind = .closeParen)
    (hv : Readable p ts v) (hcomma : comma.kind = .comma) (hs : Separated (parts.map Prod.fst) inner)
    (hp : ∀ q ∈ parts, Readable p q.1 q.2) (ht : 2 * ts.length ≤ n) (hn : 2 * inner.length < n) :
    Accepts (parenthesized p (n + 1)) ((ts ++ comma :: inner) ++ [c]) rest (.sequence (v :: parts.map Prod.snd)) := by
  have hitems : Accepts (items p .closeParen n) (inner ++ [c]) rest (parts.map Prod.snd) := by
    rw [← hc]
    exact accepts_items hs (by rw [hc]; rfl) hp hn
  rw [List.append_assoc, List.cons_append]
  refine accepts_other (by rw [List.append_assoc]; exact not_next hv.head rfl) ?_
  refine (hv.accepts n _ ht (by simp [hcomma])).bind ?_
  refine accepts_other (by simp [hcomma]) (accepts_expect hcomma (hitems.last ?_))
  rw [container_eq]
  exact accepts_pure

theorem Derives.readable_of (h : Derives CaseValue.objectOrType ts v)
    (ha : ∀ m rest, 2 * ts.length ≤ m + 2 → rest.head?.any (·.kind == .openParen) = false →
      Accepts (value p (m + 2)) ts rest v) : Readable p ts v := by
  refine ⟨h.exists_head, fun n rest hn hr => ?_⟩
  obtain ⟨t, us, rfl, _⟩ := h.exists_head
  rw [List.length_cons] at hn
  obtain ⟨m, rfl⟩ : ∃ m, n = m + 2 := ⟨n - 2, by omega⟩
  exact ha m rest hn hr

theorem Derives.readable (h : Derives CaseValue.objectOrType ts v) : Readable p ts v := by
  induction h with
  | @number t x ht hx =>
    refine readable_of (.number ht hx) fun m rest _ _ => ?_
    apply accepts_peek
    simp only [List.cons_append, List.head?_cons, ht]
    exact accepts_advance (accepts_number hx accepts_pure)
  | @negative m t x hm ht hx =>
    refine readable_of (.negative hm ht hx) fun k rest _ _ => ?_
    apply accepts_peek
    simp only [List.cons_append, List.head?_cons, hm]
    exact accepts_advance (accepts_expect ht (accepts_number hx accepts_pure))
  | @text t ht =>
    refine readable_of (.text ht) fun m rest _ _ => ?_
    apply accepts_peek
    simp only [List.cons_append, List.head?_cons, ht]
    exact accepts_advance accepts_pure
  | @constant t v ht hv =>
    refine readable_of (.constant ht hv) fun m rest _ _ => ?_
    apply accepts_peek
    simp only [List.cons_append, List.head?_cons, ht, hv]
    exact accepts_advance accepts_pure
  | list hw hs hp ih =>
    refine readable_of (.list hw hs hp) fun m rest hn _ => ?_
    rw [hw.length] at hn
    exact accepts_list hw hs ih (by omega)
  | unit hw =>
    refine readable_of (.unit hw) fun m rest _ _ => ?_
    exact accepts_parenthesis hw fun t ht => accepts_unit ht
  | group hw hv ih =>
    refine readable_of (.group hw hv) fun m rest hn _ => ?_
    rw [hw.length] at hn
    exact accepts_parenthesis hw fun t ht => accepts_group ht ih (by omega)
  | several hw hv hc hs hp ihv ih =>
    refine readable_of (.several hw hv hc hs hp) fun m rest hn _ => ?_
    rw [hw.length, List.length_append, List.length_cons] at hn
    exact accepts_parenthesis hw fun t ht => accepts_several ht ihv hc hs ih (by omega) (by omega)
  | object hw hs hk hf ih =>
    refine readable_of (.object hw hs hk hf) fun m rest hn _ => ?_
    rw [hw.length] at hn
    exact accepts_object hw hs hk ih (by omega)
  | @placeholder name ty ts hn ht =>
    refine readable_of (.placeholder hn ht) fun m rest _ hr => ?_
    rw [← List.append_nil ts]
    exact accepts_named hn fun t htext => accepts_placeholder (by rw [htext, ht]) hr
  | @throws ts hn =>
    refine readable_of (.throws hn) fun m rest _ hr => ?_
    rw [← List.append_nil ts]
    exact accepts_named hn fun t htext => accepts_throws htext hr
  | throwsNamed hn hw he =>
    refine readable_of (.throwsNamed hn hw he) fun m rest _ _ => ?_
    exact accepts_named hn fun t htext => accepts_throwsNamed htext hw he
  | union hn hw hs hp ih =>
    refine readable_of (.union hn hw hs hp) fun m rest hm _ => ?_
    rw [List.length_append, hw.length] at hm
    exact accepts_named hn fun t htext => accepts_union hs ih htext hw (by omega)
  | @literal head inner args ts d hn hw hs hv hd ih =>
    refine readable_of (.literal hn hw hs hv hd) fun m rest hm _ => ?_
    rw [List.length_append, hw.length] at hm
    refine accepts_named hn fun t htext => accepts_unary (.inl htext) hw hs ih (by omega) ?_
    cases d <;> simp_all [unaryType, literal?, Datum.isContainer, Ty.ofDatum]
  | array hn hw hs hv ih =>
    refine readable_of (.array hn hw hs hv) fun m rest hm _ => ?_
    rw [List.length_append, hw.length] at hm
    refine accepts_named hn fun t htext => accepts_unary (.inr (.inl htext)) hw hs ih (by omega) ?_
    simp only [unaryType, htext]
  | @objectType head inner args ts v hn hw hs hv ha ih =>
    refine readable_of (.objectType hn hw hs hv ha) fun m rest hm _ => ?_
    rw [List.length_append, hw.length] at hm
    refine accepts_named hn fun t htext => accepts_unary (.inr (.inr htext)) hw hs ih (by omega) ?_
    have htype : objectType? v = some v.type := by
      unfold CaseValue.objectOrType at ha
      split at ha
      · rfl
      · cases ha
      · rfl
    simp only [unaryType, htext, htype]
    rfl
  | tuple hn hw he hs hp ih =>
    refine readable_of (.tuple hn hw he hs hp) fun m rest hm _ => ?_
    rw [List.length_append, hw.length, he.length] at hm
    exact accepts_named hn fun t htext => accepts_tuple hs ih htext hw he (by omega)
  | function hn hw he hs hp ha ih =>
    refine readable_of (.function hn hw he hs hp ha) fun m rest hm _ => ?_
    rw [List.length_append, hn.length, hw.length, List.length_append, he.length] at hm
    obtain ⟨k, rfl⟩ : ∃ k, m = k + 1 := ⟨m - 1, by omega⟩
    refine accepts_named hn fun t htext => accepts_function hs ih htext hw he (by omega) fun c hc => ?_
    exact accepts_returnType_none hc ha
  | functionTo hn hw he hs hp hcomma hv ih ihv =>
    refine readable_of (.functionTo hn hw he hs hp hcomma hv) fun m rest hm _ => ?_
    rw [List.length_append, hn.length, hw.length, List.length_append, he.length, List.length_cons] at hm
    obtain ⟨k, rfl⟩ : ∃ k, m = k + 1 := ⟨m - 1, by omega⟩
    refine accepts_named hn fun t htext => accepts_function hs ih htext hw he (by omega) fun c hc => ?_
    exact accepts_returnType hcomma hc ihv (by omega)

end Argument

end Casewise
