import Casewise.CaseValue
import Casewise.Directive.Basic
import Casewise.Number.Reading

namespace Casewise

inductive ArgumentError where
  | lexical (cause : LexError)
  | empty
  | trailing (text : String)
  | unexpected (text : String)
  | expected (what : String) (found : Option String)
  | invalidNumber (text : String)
  | noSeparator (text : String)
  | noKey
  | noFieldSeparator (text : String)
  | unknownName (name : String)
  | takesNone (name : String)
  | takesOne (name : String)
  | literalOfContainer
  | objectOfOther
  | unknownConstructor (name : String)
  deriving DecidableEq, Repr

namespace ArgumentError

def message : ArgumentError → String
  | .lexical e => e.message
  | .empty => "empty argument"
  | .trailing t => "unexpected '" ++ t ++ "' after argument"
  | .unexpected t => "unexpected '" ++ t ++ "' in argument"
  | .expected what (some t) => "expected " ++ what ++ ", found '" ++ t ++ "'"
  | .expected what none => "expected " ++ what ++ ", found end of argument"
  | .invalidNumber t => "invalid number '" ++ t ++ "'"
  | .noSeparator t => "expected ',' or closing bracket, found '" ++ t ++ "'"
  | .noKey => "expected an object key"
  | .noFieldSeparator t => "expected ',' or '\x7d', found '" ++ t ++ "'"
  | .unknownName n => "unknown name '" ++ n ++ "'"
  | .takesNone n => "T." ++ n ++ " takes no arguments"
  | .takesOne n => "T." ++ n ++ " takes exactly one argument"
  | .literalOfContainer => "T.literal needs a number, string or boolean"
  | .objectOfOther => "T.object needs an object literal"
  | .unknownConstructor n => "unknown symbolic constructor 'T." ++ n ++ "'"

def diagnostic (e : ArgumentError) (span : Span) : Diagnostic := .error "E110" e.message span

end ArgumentError

namespace Argument

structure Place where
  file : String
  line : Int
  stop : Int

namespace Place

def tokenSpan (p : Place) (t : Token) : Span := .onLine p.file p.line t.first t.last

def tokenSpan? (p : Place) : Option Token → Span
  | some t => p.tokenSpan t
  | none => .point p.file p.line p.stop

end Place

structure State where
  tokens : List Token
  errors : List Diagnostic := []

abbrev Reader := ExceptT (ArgumentError × Span) (StateM State)

def fail {α : Type} (e : ArgumentError) (span : Span) : Reader α := throw (e, span)

def peek : Reader (Option Token) := do return (← get).tokens.head?

def advance : Reader Unit := modify fun s => { s with tokens := s.tokens.drop 1 }

def isNext (kind : TokenKind) : Reader Bool := do return (← peek).any (·.kind == kind)

def nextText : Reader String := do return ((← peek).map (·.text)).getD ""

def expect (p : Place) (kind : TokenKind) (what : String) : Reader Token := do
  match ← peek with
  | some t =>
    if t.kind = kind then
      advance
      return t
    else fail (.expected what (some t.text)) (p.tokenSpan t)
  | none => fail (.expected what none) (p.tokenSpan? none)

def placeholder? : String → Option Ty
  | "number" => some .number
  | "string" => some .string
  | "boolean" => some .boolean
  | "null" => some .null
  | "undefined" => some .undefined
  | "unknown" => some .unknown
  | "never" => some .never
  | "int" => some .number
  | "float" => some .number
  | "str" => some .string
  | "bool" => some .boolean
  | "none" => some .null
  | _ => none

def constant? : String → Option CaseValue
  | "true" => some (.concrete (.bool true))
  | "True" => some (.concrete (.bool true))
  | "false" => some (.concrete (.bool false))
  | "False" => some (.concrete (.bool false))
  | "null" => some (.concrete .null)
  | "None" => some (.concrete .null)
  | "undefined" => some (.symbolic .undefined)
  | _ => none

def container (items : List CaseValue) : CaseValue :=
  match items.mapM CaseValue.datum? with
  | some ds => .concrete (.list ds)
  | none => .symbolic (.array (.union (items.map CaseValue.type)))

def object (fields : Bindings CaseValue) : CaseValue :=
  match fields.mapM fun (k, v) => v.datum?.map (k, ·) with
  | some ds => .concrete (.record ds)
  | none => .symbolic (.record (fields.map fun (k, v) => (k, v.type)))

def literal? : CaseValue → Option Ty
  | .concrete .null => some .null
  | .concrete (.scalar s) => some (.literal s)
  | _ => none

def objectType? : CaseValue → Option Ty
  | .concrete (.record fs) => some (.ofDatum (.record fs))
  | .concrete _ => none
  | .symbolic t => some t

def number (p : Place) (t : Token) : Reader Number :=
  match Numeral.number? (t.text.toList.filter (· != '_')) with
  | some n => return n
  | none => fail (.invalidNumber t.text) (p.tokenSpan t)

def unaryType (p : Place) (name : Token) (arg : CaseValue) : Reader Ty :=
  match name.text with
  | "literal" =>
    match literal? arg with
    | some t => return t
    | none => fail .literalOfContainer (p.tokenSpan name)
  | "array" => return .array arg.type
  | _ =>
    match objectType? arg with
    | some t => return t
    | none => fail .objectOfOther (p.tokenSpan name)

def throwsType (p : Place) : Reader Ty := do
  if ← isNext .openParen then
    advance
    let exception ← expect p .string "an exception name"
    let _ ← expect p .closeParen "')'"
    return .throws (some exception.text)
  else return .throws none

mutual

/-- One value. The first number bounds the steps; twice the number of tokens is enough. -/
def value (p : Place) : Nat → Reader CaseValue
  | 0 => fail (.unexpected "") (p.tokenSpan? none)
  | n + 1 => do
    match ← peek with
    | none => fail (.unexpected "") (p.tokenSpan? none)
    | some t =>
      match t.kind with
      | .number => do
        advance
        return .concrete (.scalar (.number (← number p t)))
      | .minus => do
        advance
        let digits ← expect p .number "a number after '-'"
        return .concrete (.scalar (.number (← number p digits).negate))
      | .string => do
        advance
        return .concrete (.text t.text)
      | .openBracket => do
        advance
        return container (← items p .closeBracket n)
      | .openParen => do
        advance
        parenthesized p n
      | .openBrace => do
        advance
        return object (← fields p [] n)
      | .identifier => do
        advance
        match constant? t.text with
        | some v => return v
        | none =>
          if t.text = "T" then do
            let _ ← expect p .dot "'.' after 'T'"
            constructed p (← expect p .identifier "a type name after 'T.'") n
          else fail (.unknownName t.text) (p.tokenSpan t)
      | _ => fail (.unexpected t.text) (p.tokenSpan t)

def items (p : Place) (closer : TokenKind) : Nat → Reader (List CaseValue)
  | 0 => fail (.unexpected "") (p.tokenSpan? none)
  | n + 1 => do
    if ← isNext closer then
      advance
      return []
    else
      let v ← value p n
      if ← isNext .comma then advance
      else if !(← isNext closer) then fail (.noSeparator (← nextText)) (p.tokenSpan? (← peek))
      return v :: (← items p closer n)

def parenthesized (p : Place) : Nat → Reader CaseValue
  | 0 => fail (.unexpected "") (p.tokenSpan? none)
  | n + 1 => do
    if ← isNext .closeParen then
      advance
      return .concrete (.list [])
    else
      let first ← value p n
      if ← isNext .closeParen then
        advance
        return first
      else
        let _ ← expect p .comma "',' or ')'"
        return container (first :: (← items p .closeParen n))

def fields (p : Place) (before : Bindings CaseValue) : Nat → Reader (Bindings CaseValue)
  | 0 => fail (.unexpected "") (p.tokenSpan? none)
  | n + 1 => do
    if ← isNext .closeBrace then
      advance
      return before
    else
      let key ← peek
      if key.any fun t => t.kind == .identifier || t.kind == .string then
        advance
        let _ ← expect p .colon "':' after object key"
        let v ← value p n
        if ← isNext .comma then advance
        else if !(← isNext .closeBrace) then fail (.noFieldSeparator (← nextText)) (p.tokenSpan? (← peek))
        fields p (before.set ((key.map (·.text)).getD "") v) n
      else fail .noKey (p.tokenSpan? key)

def constructed (p : Place) (name : Token) : Nat → Reader CaseValue
  | 0 => fail (.unexpected "") (p.tokenSpan? none)
  | n + 1 => do
    match placeholder? name.text with
    | some t =>
      if ← isNext .openParen then fail (.takesNone name.text) (p.tokenSpan? (← peek))
      return .symbolic t
    | none =>
      match name.text with
      | "throws" => return .symbolic (← throwsType p)
      | "fn" => do
        let _ ← expect p .openParen "'(' after T.fn"
        let _ ← expect p .openBracket "'[' with parameter types"
        let params ← items p .closeBracket n
        let returns ← returnType p n
        let _ ← expect p .closeParen "')'"
        return .symbolic (.function (params.map CaseValue.type) returns)
      | "tuple" => do
        let _ ← expect p .openParen "'(' after T.tuple"
        let _ ← expect p .openBracket "'[' with element types"
        let elements ← items p .closeBracket n
        let _ ← expect p .closeParen "')'"
        return .symbolic (.tuple (elements.map CaseValue.type))
      | "union" => do
        let _ ← expect p .openParen "'(' after T.union"
        return .symbolic (.union ((← items p .closeParen n).map CaseValue.type))
      | other =>
        if other = "literal" || other = "array" || other = "object" then do
          let _ ← expect p .openParen ("'(' after T." ++ other)
          match ← items p .closeParen n with
          | [arg] => return .symbolic (← unaryType p name arg)
          | _ => fail (.takesOne other) (p.tokenSpan name)
        else do
          let e := ArgumentError.unknownConstructor other
          modify fun s => { s with errors := s.errors ++ [e.diagnostic (p.tokenSpan name)] }
          if ← isNext .openParen then
            advance
            let _ ← items p .closeParen n
          return .symbolic .unknown

def returnType (p : Place) : Nat → Reader Ty
  | 0 => fail (.unexpected "") (p.tokenSpan? none)
  | n + 1 => do
    if ← isNext .comma then
      advance
      if ← isNext .closeParen then return .unknown
      else return (← value p n).type
    else return .unknown

end

def whole (p : Place) (span : Span) : Reader CaseValue := do
  let tokens := (← get).tokens
  if tokens.isEmpty then fail .empty span
  let v ← value p (2 * tokens.length + 2)
  match ← peek with
  | some t => fail (.trailing t.text) (p.tokenSpan t)
  | none => return v

end Argument

namespace ArgumentText

def evaluate (arg : ArgumentText) : CaseValue × List Diagnostic :=
  let lexed := Lexer.lex arg.span.startCol arg.text.toList
  if lexed.errors.isEmpty then
    let place : Argument.Place := ⟨arg.span.file, arg.span.startLine, lexed.stop⟩
    match (Argument.whole place arg.span).run ⟨lexed.tokens, []⟩ with
    | (.ok v, s) => (v, s.errors)
    | (.error (e, span), s) => (.symbolic .unknown, s.errors ++ [e.diagnostic span])
  else (.symbolic .unknown, lexed.errors.map fun (e, col) =>
    (ArgumentError.lexical e).diagnostic (.point arg.span.file arg.span.startLine col))

def evaluateAll (args : List ArgumentText) : List CaseValue × List Diagnostic :=
  (args.map fun a => a.evaluate.1, args.flatMap fun a => a.evaluate.2)

end ArgumentText

end Casewise
