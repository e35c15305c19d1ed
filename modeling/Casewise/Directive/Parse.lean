import Casewise.Directive.Basic

namespace Casewise.DirectiveParse

structure Context where
  kind : DirectiveKind
  span : Span
  text : List Char
  base : Int

abbrev Failure := DirectiveError × Span

namespace Context

def tokenSpan (ctx : Context) (t : Token) : Span :=
  .onLine ctx.span.file ctx.span.startLine t.first t.last

def here (ctx : Context) : List Token → Span
  | [] => ctx.span
  | t :: _ => ctx.tokenSpan t

def cut (ctx : Context) (first last : Token) : ArgumentText :=
  { text := String.ofList ((ctx.text.drop (first.first - ctx.base).toNat).take (last.last - first.first + 1).toNat)
    span := .onLine ctx.span.file ctx.span.startLine first.first last.last }

def cutGroup? (ctx : Context) (group : List Token) : Option ArgumentText :=
  match group.head?, group.getLast? with
  | some a, some b => some (ctx.cut a b)
  | _, _ => none

end Context

def optionalLabel : List Token → Option String × List Token
  | [] => (none, [])
  | t :: ts => if t.kind = .string then (some t.text, ts) else (none, t :: ts)

def dottedRest (ctx : Context) : List Token → Except Failure (List String × List Token)
  | [] => .ok ([], [])
  | [t] => if t.kind = .dot then .error (.noNameAfterDot, ctx.span) else .ok ([], [t])
  | t :: n :: ts =>
    if t.kind = .dot then
      if n.kind = .identifier then do
        let (names, rest) ← dottedRest ctx ts
        return (n.text :: names, rest)
      else .error (.noNameAfterDot, ctx.tokenSpan n)
    else .ok ([], t :: n :: ts)

def dottedName (ctx : Context) : List Token → Except Failure (String × List Token)
  | [] => .error (.noSymbol, ctx.span)
  | t :: ts =>
    if t.kind = .identifier then do
      let (names, rest) ← dottedRest ctx ts
      return (".".intercalate (t.text :: names), rest)
    else .error (.noSymbol, ctx.tokenSpan t)

/-- Splits at the commas outside all brackets, up to the closing parenthesis. `stack` holds the closers
that are still due, and `group` the reversed tokens of the current argument. -/
def splitArguments (ctx : Context) (stack : List TokenKind) (group : List Token) :
    List Token → Except Failure (List (List Token) × List Token)
  | [] => .error (.unclosed, ctx.span)
  | t :: ts =>
    if stack.isEmpty && t.kind == .closeParen then
      .ok (if group.isEmpty then [] else [group.reverse], ts)
    else if stack.isEmpty && t.kind == .comma then
      if group.isEmpty then .error (.emptyArgument, ctx.tokenSpan t)
      else do
        let (groups, rest) ← splitArguments ctx [] [] ts
        return (group.reverse :: groups, rest)
    else match t.kind.closer? with
      | some c => splitArguments ctx (c :: stack) (t :: group) ts
      | none =>
        if t.kind.isCloser then
          match stack with
          | c :: stack' =>
            if c = t.kind then splitArguments ctx stack' (t :: group) ts
            else .error (.unbalancedArgument t.text, ctx.tokenSpan t)
          | [] => .error (.unbalancedArgument t.text, ctx.tokenSpan t)
        else splitArguments ctx stack (t :: group) ts

def argumentList (ctx : Context) (ts : List Token) : Except Failure (List ArgumentText × List Token) :=
  match ts with
  | t :: rest =>
    if t.kind = .openParen then do
      let (groups, rest) ← splitArguments ctx [] [] rest
      return (groups.filterMap ctx.cutGroup?, rest)
    else .error (.noOpener ctx.kind, ctx.tokenSpan t)
  | [] => .error (.noOpener ctx.kind, ctx.span)

def expectEnd (ctx : Context) : List Token → Except Failure Unit
  | [] => .ok ()
  | t :: _ => .error (.trailing t.text ctx.kind, ctx.tokenSpan t)

def checkBalanced (ctx : Context) (last : Token) (stack : List TokenKind) : List Token → Except Failure Unit
  | [] => if stack.isEmpty then .ok () else .error (.unclosedBrackets, ctx.tokenSpan last)
  | t :: ts =>
    match t.kind.closer? with
    | some c => checkBalanced ctx last (c :: stack) ts
    | none =>
      if t.kind.isCloser then
        match stack with
        | c :: stack' =>
          if c = t.kind then checkBalanced ctx last stack' ts else .error (.unbalanced t.text, ctx.tokenSpan t)
        | [] => .error (.unbalanced t.text, ctx.tokenSpan t)
      else checkBalanced ctx last stack ts

def staysOpen : Nat → List Token → Bool
  | _, [] => true
  | _, [_] => true
  | depth, t :: ts =>
    if t.kind.closer?.isSome then staysOpen (depth + 1) ts
    else if t.kind.isCloser then depth != 1 && staysOpen (depth - 1) ts
    else staysOpen depth ts

def isWrapped : List Token → Bool
  | [] => false
  | t :: ts => t.kind == .openParen && ts.getLast?.any (·.kind == .closeParen) && staysOpen 1 ts

def wholeRest (ctx : Context) (ts : List Token) : Except Failure ArgumentText :=
  match ts.head?, ts.getLast? with
  | some first, some last => do
    checkBalanced ctx last [] ts
    return ctx.cut first last
  | _, _ => .error (.noExpectation, ctx.span)

def unwrappedRest (ctx : Context) (ts : List Token) : Except Failure ArgumentText := do
  let whole ← wholeRest ctx ts
  if isWrapped ts then
    match ctx.cutGroup? (ts.drop 1).dropLast with
    | some inner => return inner
    | none => throw (.noExpectation, ctx.here ts)
  else return whole

def caseLike (ctx : Context) (ts : List Token) : Except Failure (Option String × List ArgumentText) := do
  let (label, rest) := optionalLabel ts
  let (args, rest) ← argumentList ctx rest
  expectEnd ctx rest
  return (label, args)

def skipsCase : List Token → Bool
  | [] => false
  | t :: _ => t.kind == .string || t.kind == .openParen

def body (ctx : Context) (ts : List Token) : Except Failure DirectiveBody :=
  match ctx.kind with
  | .oneCase => do
    let (label, args) ← caseLike ctx ts
    return .oneCase label args
  | .sample => do
    let (label, args) ← caseLike ctx ts
    return .sample label args
  | .skip =>
    if skipsCase ts then do
      let (label, args) ← caseLike ctx ts
      return .skipCase label args
    else if ts.isEmpty then .ok (.skipFunction none)
    else do return .skipFunction (some (← wholeRest ctx ts))
  | .mock => do
    let (symbol, rest) ← dottedName ctx ts
    match rest with
    | [] => throw (.noAssign, ctx.span)
    | t :: rest =>
      if t.kind ≠ .assign then throw (.noAssign, ctx.tokenSpan t)
      if rest.isEmpty then throw (.noSubstitute, ctx.span)
      return .mock symbol (← wholeRest ctx rest)
  | .pure => do
    expectEnd ctx ts
    return .pure
  | .returns => if ts.isEmpty then .error (.noExpectation, ctx.span) else do
    return .returns (← unwrappedRest ctx ts)

end Casewise.DirectiveParse

namespace Casewise.Directive

open DirectiveParse

def parse (kind : DirectiveKind) (text : List Char) (span : Span) (base : Int) :
    Except (List Diagnostic) Directive :=
  let lexed := Lexer.lex base text
  if lexed.errors.isEmpty then
    match DirectiveParse.body ⟨kind, span, text, base⟩ lexed.tokens with
    | .ok b => .ok ⟨span, b⟩
    | .error (e, s) => .error [e.diagnostic s]
  else .error (lexed.errors.map fun (e, col) =>
    (DirectiveError.lexical e).diagnostic (.point span.file span.startLine col))

end Casewise.Directive
