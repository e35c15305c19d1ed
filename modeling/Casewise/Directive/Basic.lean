import Casewise.Diagnostic
import Casewise.Directive.Token

namespace Casewise

structure ArgumentText where
  text : String
  span : Span
  deriving DecidableEq, Repr

inductive DirectiveKind where
  | oneCase
  | mock
  | pure
  | skip
  | sample
  | returns
  deriving DecidableEq, Repr

namespace DirectiveKind

def all : List DirectiveKind := [.oneCase, .mock, .pure, .skip, .sample, .returns]

def name : DirectiveKind → String
  | .oneCase => "case"
  | .mock => "mock"
  | .pure => "pure"
  | .skip => "skip"
  | .sample => "sample"
  | .returns => "returns"

def ofName? (n : String) : Option DirectiveKind := all.find? (·.name == n)

def tag (k : DirectiveKind) : String := "@nudo:" ++ k.name

end DirectiveKind

inductive DirectiveBody where
  | oneCase (label : Option String) (args : List ArgumentText)
  | sample (label : Option String) (args : List ArgumentText)
  | skipCase (label : Option String) (args : List ArgumentText)
  | skipFunction (declared : Option ArgumentText)
  | mock (symbol : String) (substitute : ArgumentText)
  | pure
  | returns (expected : ArgumentText)
  deriving DecidableEq, Repr

structure Directive where
  span : Span
  body : DirectiveBody
  deriving DecidableEq, Repr

namespace Directive

def kind (d : Directive) : DirectiveKind :=
  match d.body with
  | .oneCase .. => .oneCase
  | .sample .. => .sample
  | .skipCase .. => .skip
  | .skipFunction _ => .skip
  | .mock .. => .mock
  | .pure => .pure
  | .returns _ => .returns

def name? (d : Directive) : Option String :=
  match d.body with
  | .oneCase l _ => l
  | .sample l _ => l
  | .skipCase l _ => l
  | .mock s _ => some s
  | _ => none

def arguments? (d : Directive) : Option (List ArgumentText) :=
  match d.body with
  | .oneCase _ as => some as
  | .sample _ as => some as
  | .skipCase _ as => some as
  | _ => none

def payload? (d : Directive) : Option ArgumentText :=
  match d.body with
  | .skipFunction p => p
  | .mock _ p => some p
  | .returns p => some p
  | _ => none

def isCaseLike (d : Directive) : Bool := d.arguments?.isSome

def skipsFunction (d : Directive) : Bool :=
  match d.body with
  | .skipFunction _ => true
  | _ => false

end Directive

inductive DirectiveError where
  | unknownKind (name : String)
  | lexical (cause : LexError)
  | noSymbol
  | noNameAfterDot
  | noAssign
  | noSubstitute
  | noExpectation
  | noOpener (kind : DirectiveKind)
  | unclosed
  | emptyArgument
  | unbalancedArgument (text : String)
  | unbalanced (text : String)
  | unclosedBrackets
  | trailing (text : String) (kind : DirectiveKind)
  deriving DecidableEq, Repr

def DirectiveError.message : DirectiveError → String
  | .unknownKind n => "unknown directive '@nudo:" ++ n ++ "'"
  | .lexical e => e.message
  | .noSymbol => "expected a symbol name to mock"
  | .noNameAfterDot => "expected a name after '.'"
  | .noAssign => "expected '=' after mocked symbol name"
  | .noSubstitute => "expected a substitute after '='"
  | .noExpectation => "@nudo:returns needs an expected type or value"
  | .noOpener k => "expected '(' to open the " ++ k.tag ++ " arguments"
  | .unclosed => "unbalanced parentheses in argument list"
  | .emptyArgument => "empty argument in argument list"
  | .unbalancedArgument t => "unbalanced '" ++ t ++ "' in argument list"
  | .unbalanced t => "unbalanced '" ++ t ++ "'"
  | .unclosedBrackets => "unbalanced brackets"
  | .trailing t k => "unexpected '" ++ t ++ "' after " ++ k.tag

def DirectiveError.diagnostic (e : DirectiveError) (span : Span) : Diagnostic := .error "E100" e.message span

end Casewise
