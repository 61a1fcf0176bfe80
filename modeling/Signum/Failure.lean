import Signum.Syntax.Span
/- Why a program was rejected or stopped. -/
namespace Signum

/-- The kinds of outcome. Each has a number, which is the exit code of a command
that ends with it; `other` is a number without a meaning. -/
inductive ErrorKind where
  | success
  | parse
  | staticCheck
  | uninitialized
  | divisionByZero
  | failedRead
  | other (code : Int)
  deriving DecidableEq, Repr

namespace ErrorKind

/-- The kind with the given number. -/
def ofCode : Int → ErrorKind
  | 0 => .success
  | 1 => .parse
  | 2 => .staticCheck
  | 3 => .uninitialized
  | 4 => .divisionByZero
  | 5 => .failedRead
  | n => .other n

/-- The number of a kind. -/
def code : ErrorKind → Int
  | .success => 0
  | .parse => 1
  | .staticCheck => 2
  | .uninitialized => 3
  | .divisionByZero => 4
  | .failedRead => 5
  | .other n => n

/-- The kind in words. -/
def text : ErrorKind → Bytes
  | .success => "success"
  | .parse => "parsing error"
  | .staticCheck => "static checking error"
  | .uninitialized => "uninitialized variable error"
  | .divisionByZero => "division by zero error"
  | .failedRead => "failed input read"
  | .other n => "ErrorKind(" ++ Bytes.ofInt n ++ ")"

/-- What is said when the value of an outcome without one is asked for. -/
def noValue : Bytes := "no such element"

end ErrorKind

/-- A failure tied to a place in the source. The message may be empty. -/
structure Failure where
  kind : ErrorKind
  span : Span
  message : Bytes
  deriving DecidableEq, Repr

/-- The place, the kind and the message. -/
def Failure.text (f : Failure) : Bytes :=
  f.span.text ++ ": " ++ f.kind.text ++
    (if f.message.isEmpty then ([] : Bytes) else ": " ++ f.message)

end Signum
