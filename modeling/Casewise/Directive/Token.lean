import Casewise.Source.Span
import Casewise.Text.Quoted
import Casewise.Text.Word

/-!
Tokens of the text of a directive. One step of the lexer looks at a character and what follows it, and
says how many further characters belong to the token, so the steps never overlap and always advance.
-/

namespace Casewise

inductive TokenKind where
  | number
  | string
  | identifier
  | openParen
  | closeParen
  | openBracket
  | closeBracket
  | openBrace
  | closeBrace
  | comma
  | colon
  | dot
  | assign
  | minus
  deriving DecidableEq, Repr

namespace TokenKind

def name : TokenKind → String
  | .number => "NUMBER"
  | .string => "STRING"
  | .identifier => "IDENTIFIER"
  | .openParen => "LPAREN"
  | .closeParen => "RPAREN"
  | .openBracket => "LBRACKET"
  | .closeBracket => "RBRACKET"
  | .openBrace => "LBRACE"
  | .closeBrace => "RBRACE"
  | .comma => "COMMA"
  | .colon => "COLON"
  | .dot => "DOT"
  | .assign => "ASSIGN"
  | .minus => "MINUS"

def ofPunctuation? : Char → Option TokenKind
  | '(' => some .openParen
  | ')' => some .closeParen
  | '[' => some .openBracket
  | ']' => some .closeBracket
  | '\x7b' => some .openBrace
  | '\x7d' => some .closeBrace
  | ',' => some .comma
  | ':' => some .colon
  | '.' => some .dot
  | '=' => some .assign
  | '-' => some .minus
  | _ => none

def closer? : TokenKind → Option TokenKind
  | .openParen => some .closeParen
  | .openBracket => some .closeBracket
  | .openBrace => some .closeBrace
  | _ => none

def isCloser : TokenKind → Bool
  | .closeParen => true
  | .closeBracket => true
  | .closeBrace => true
  | _ => false

end TokenKind

structure Token where
  kind : TokenKind
  text : String
  first : Int
  last : Int
  deriving DecidableEq, Repr

inductive LexError where
  | unexpected (c : Char)
  | unterminated
  deriving DecidableEq, Repr

def LexError.message : LexError → String
  | .unexpected c => "unexpected character " ++ Text.literal (String.ofList [c])
  | .unterminated => "unterminated string literal"

structure Lexed where
  tokens : List Token
  errors : List (LexError × Int)
  stop : Int

namespace Lexer

inductive Finding where
  | blank
  | token (kind : TokenKind) (text : List Char)
  | error (cause : LexError)

/-- A finding and the number of characters after the first that belong to it. -/
structure Step where
  finding : Finding
  extra : Nat

def unescape : Char → Char
  | 'n' => '\n'
  | 't' => '\t'
  | 'r' => '\r'
  | '0' => Char.ofNat 0
  | c => c

def quotedText (quote : Char) : List Char → List Char × Nat × Bool
  | [] => ([], 0, false)
  | ['\\'] => ([], 1, false)
  | '\\' :: c :: rest =>
    let (text, n, closed) := quotedText quote rest
    (unescape c :: text, n + 2, closed)
  | c :: rest =>
    if c = quote then ([], 1, true)
    else
      let (text, n, closed) := quotedText quote rest
      (c :: text, n + 1, closed)

def isNumeralChar (c : Char) : Bool := Text.isDigit c || c == '_'

def fraction : List Char → List Char
  | '.' :: d :: rest => if Text.isDigit d then '.' :: (d :: rest).takeWhile Text.isDigit else []
  | _ => []

def exponent : List Char → List Char
  | e :: d :: rest =>
    if e == 'e' || e == 'E' then
      if Text.isDigit d then e :: (d :: rest).takeWhile Text.isDigit
      else if (d == '+' || d == '-') && rest.head?.any Text.isDigit then
        e :: d :: rest.takeWhile Text.isDigit
      else []
    else []
  | _ => []

def numeral (cs : List Char) : List Char :=
  let whole := cs.takeWhile isNumeralChar
  let rest := cs.dropWhile isNumeralChar
  let point := fraction rest
  whole ++ point ++ exponent (rest.drop point.length)

def startsNumber (c : Char) (rest : List Char) : Bool :=
  Text.isDigit c || (c == '.' && rest.head?.any Text.isDigit)

def step (c : Char) (rest : List Char) : Step :=
  if c == ' ' || c == '\t' then ⟨.blank, 0⟩
  else if c == '"' || c == '\'' then
    let (text, n, closed) := quotedText c rest
    if closed then ⟨.token .string text, n⟩ else ⟨.error .unterminated, n⟩
  else if startsNumber c rest then
    let text := numeral (c :: rest)
    ⟨.token .number text, text.length - 1⟩
  else if Text.isLetter c || c == '_' then
    let text := c :: rest.takeWhile Text.isWordChar
    ⟨.token .identifier text, text.length - 1⟩
  else match TokenKind.ofPunctuation? c with
    | some kind => ⟨.token kind [c], 0⟩
    | none => ⟨.error (.unexpected c), 0⟩

def Finding.record (column : Int) (extra : Nat) (tail : Lexed) : Finding → Lexed
  | .blank => tail
  | .token kind text => { tail with tokens := ⟨kind, String.ofList text, column, column + extra⟩ :: tail.tokens }
  | .error cause => { tail with errors := (cause, column) :: tail.errors }

def lex (column : Int) (cs : List Char) : Lexed :=
  match cs with
  | [] => ⟨[], [], column⟩
  | c :: rest =>
    let s := step c rest
    s.finding.record column s.extra (lex (column + s.extra + 1) (rest.drop s.extra))
termination_by cs.length

end Lexer

end Casewise
