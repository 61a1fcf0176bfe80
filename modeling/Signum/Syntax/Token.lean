import Signum.Syntax.Span
import Signum.Text.Quoted
/- The tokens of a source. -/
namespace Signum

inductive Keyword where
  | intWord
  | floatWord
  | printWord
  | ifWord
  | elseWord
  | whileWord
  | readInt
  | readFloat
  deriving DecidableEq, Repr

inductive Symbol where
  | eq
  | ne
  | le
  | ge
  | andAnd
  | orOr
  | lparen
  | rparen
  | lbrace
  | rbrace
  | semi
  | assign
  | plus
  | minus
  | star
  | slash
  | lt
  | gt
  | bang
  deriving DecidableEq, Repr

/-- What a token is. -/
inductive TokenKind where
  | ident
  | int
  | float
  | keyword (k : Keyword)
  | symbol (s : Symbol)
  deriving DecidableEq, Repr

/-- A token with its text and place. -/
structure Token where
  kind : TokenKind
  text : Bytes
  span : Span
  deriving DecidableEq, Repr

namespace Keyword

def all : List Keyword :=
  [.intWord, .floatWord, .printWord, .ifWord, .elseWord, .whileWord, .readInt, .readFloat]

/-- How a keyword is written. -/
def text : Keyword → Bytes
  | .intWord => "int"
  | .floatWord => "float"
  | .printWord => "print"
  | .ifWord => "if"
  | .elseWord => "else"
  | .whileWord => "while"
  | .readInt => "readint"
  | .readFloat => "readfloat"

/-- The keyword written so. -/
def ofText? (text : Bytes) : Option Keyword := all.find? (·.text == text)

end Keyword

namespace Symbol

/-- The symbols, those of two characters before those of one. -/
def all : List Symbol :=
  [.eq, .ne, .le, .ge, .andAnd, .orOr, .lparen, .rparen, .lbrace, .rbrace, .semi, .assign,
    .plus, .minus, .star, .slash, .lt, .gt, .bang]

/-- How a symbol is written. -/
def text : Symbol → Bytes
  | .eq => "=="
  | .ne => "!="
  | .le => "<="
  | .ge => ">="
  | .andAnd => "&&"
  | .orOr => "||"
  | .lparen => "("
  | .rparen => ")"
  | .lbrace => "\x7b"
  | .rbrace => "\x7d"
  | .semi => ";"
  | .assign => "="
  | .plus => "+"
  | .minus => "-"
  | .star => "*"
  | .slash => "/"
  | .lt => "<"
  | .gt => ">"
  | .bang => "!"

end Symbol

/-- The name of a kind of token in messages. -/
def TokenKind.name : TokenKind → Bytes
  | .ident => "identifier"
  | .int => "integer literal"
  | .float => "float literal"
  | .keyword k => "'" ++ k.text ++ "'"
  | .symbol s => "'" ++ s.text ++ "'"

/-- A token in messages: its kind, and its text where that varies. -/
def Token.describe (t : Token) : Bytes :=
  match t.kind with
  | .ident | .int | .float => t.kind.name ++ " " ++ t.text.quoted
  | k => k.name

end Signum
