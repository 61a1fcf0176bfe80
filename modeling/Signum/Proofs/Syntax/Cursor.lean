import Signum.Syntax.Parser
/- Reading a program with a cursor.

   The parser goes down the tokens that are left. Here the same reading is done with a cursor on a
   tape: all the tokens in a row and the end of the file after the last one. A cursor can be
   anywhere, so looking past the tape has an answer of its own (`outside`), and nothing says that
   the rules, which call one another, ever come to an end: a run is given fuel, and has an answer
   (`unfinished`) for having used it up. No rule can recover from either. The cursor stays where it
   is when a rule fails; only the second attempt at a parenthesis puts it back. Every place it is
   moved to is kept (`trail`). -/
namespace Signum

/-- What a cursor can stand on: a token, or the end of the file. -/
inductive Spot where
  | token (t : Token)
  | finish (p : Point)
  deriving DecidableEq, Repr

namespace Spot

/-- The kind of a token; the end of the file has none. -/
def kind? : Spot → Option TokenKind
  | .token t => some t.kind
  | .finish _ => none

def text : Spot → Bytes
  | .token t => t.text
  | .finish _ => []

def span : Spot → Span
  | .token t => t.span
  | .finish p => ⟨p, p⟩

/-- A spot in messages. -/
def describe : Spot → Bytes
  | .token t => t.describe
  | .finish _ => "end of file"

end Spot

namespace Cursor

/-- The tokens of a source that ends at `finish`, and its end. -/
def tape (finish : Point) (ts : List Token) : List Spot := ts.map .token ++ [.finish finish]

/-- How a reading ends. A value or a failure comes with the place where the cursor is then and with
the places it was moved to. -/
inductive Ending (α : Type) where
  | done (value : α) (pos : Nat) (trail : List Nat)
  | failed (failure : Failure) (pos : Nat) (trail : List Nat)
  | outside
  | unfinished
  deriving DecidableEq, Repr

/-- The ending of a reading before which the cursor was moved. -/
def Ending.after {α : Type} (early : List Nat) : Ending α → Ending α
  | .done a q trail => .done a q (early ++ trail)
  | .failed e q trail => .failed e q (early ++ trail)
  | .outside => .outside
  | .unfinished => .unfinished

/-- Reads from a tape, from a place on. -/
def Reading (α : Type) : Type := List Spot → Nat → Ending α

instance : Monad Reading where
  pure a := fun _ p => .done a p []
  bind x f := fun tape p =>
    match x tape p with
    | .done a q trail => (f a tape q).after trail
    | .failed e q trail => .failed e q trail
    | .outside => .outside
    | .unfinished => .unfinished

/-- The spot under the cursor. -/
def look : Reading Spot := fun tape p =>
  match tape[p]? with
  | some spot => .done spot p []
  | none => .outside

/-- Takes the spot under the cursor and moves on, except from the end of the file. -/
def bump : Reading Spot := fun tape p =>
  match tape[p]? with
  | some (.token t) => .done (.token t) (p + 1) [p + 1]
  | some (.finish q) => .done (.finish q) p []
  | none => .outside

/-- Where the cursor is. -/
def place : Reading Nat := fun _ p => .done p p []

/-- Puts the cursor somewhere. -/
def putAt (q : Nat) : Reading Unit := fun _ _ => .done () q [q]

def fail {α : Type} (failure : Failure) : Reading α := fun _ p => .failed failure p []

/-- A problem with the spot under the cursor. -/
def problem {α : Type} (message : Bytes) : Reading α := do
  let spot ← look
  fail ⟨.parse, spot.span, message⟩

/-- Reads and goes on with what came of it; the cursor stays where the reading left it. -/
def attempt {α : Type} (x : Reading α) : Reading (Except Failure α) := fun tape p =>
  match x tape p with
  | .done a q trail => .done (.ok a) q trail
  | .failed e q trail => .done (.error e) q trail
  | .outside => .outside
  | .unfinished => .unfinished

/-- The ending of an attempt after one that failed at `reached`. When both fail, the failure of the
one that got further is reported. -/
def Ending.orFurther {α : Type} (failure : Failure) (reached : Nat) : Ending α → Ending α
  | .failed failure' q trail => .failed (if q < reached then failure else failure') q trail
  | x => x

/-- Makes another attempt after one that failed at `reached`. -/
def orFurther {α : Type} (failure : Failure) (reached : Nat) (x : Reading α) : Reading α :=
  fun tape p => (x tape p).orFurther failure reached

/-- Takes a token if it is of the kind. -/
def accept (kind : TokenKind) : Reading (Option Token) := do
  match ← look with
  | .token t =>
    if t.kind = kind then do
      let _ ← bump
      pure (some t)
    else pure none
  | .finish _ => pure none

/-- Takes a token of the kind; `what` says where it belongs. -/
def expect (kind : TokenKind) (what : Bytes) : Reading Token := do
  match ← accept kind with
  | some t => pure t
  | none => do
    let spot ← look
    problem ("expected " ++ kind.name ++ " " ++ what ++ ", found " ++ spot.describe)

/-- What there is to read. A rule with `From` goes on after the parts read so far. -/
inductive Rule where
  | program
  | item
  | decl
  | stmt
  | block
  | header (what : Bytes)
  | cond
  | condFrom (left : Cond)
  | conj
  | conjFrom (left : Cond)
  | negation
  | comparison
  | expr
  | exprFrom (left : Expr)
  | term
  | termFrom (left : Expr)
  | unary
  | primary
  deriving DecidableEq, Repr

/-- What a rule reads. -/
def Rule.Result : Rule → Type
  | .program => List Item
  | .item => Item
  | .decl => Decl
  | .stmt => Stmt
  | .block => List Item × Token
  | .header _ | .cond | .condFrom _ | .conj | .conjFrom _ | .negation | .comparison => Cond
  | .expr | .exprFrom _ | .term | .termFrom _ | .unary | .primary => Expr

section Rules
variable (call : (r : Rule) → Reading r.Result)

/-- The value after an equals sign, if there is one. -/
def initializer : Reading (Option Expr) := do
  match ← accept (.symbol .assign) with
  | some _ => do
    let e ← call .expr
    pure (some e)
  | none => pure none

def decl : Reading Decl := do
  let word ← bump
  let name ← expect .ident "after type"
  let init ← initializer call
  let semi ← expect (.symbol .semi) "after declaration"
  pure ⟨if word.kind? = some (.keyword .floatWord) then .float else .int, name.text, init,
    word.span.upTo semi.span⟩

def stmt : Reading Stmt := do
  let start ← look
  match start.kind? with
  | some .ident => do
    let _ ← bump
    let _ ← expect (.symbol .assign) "in assignment"
    let value ← call .expr
    let semi ← expect (.symbol .semi) "after assignment"
    pure (.assign start.text value (start.span.upTo semi.span))
  | some (.keyword .printWord) => do
    let _ ← bump
    let value ← call .expr
    let semi ← expect (.symbol .semi) "after print"
    pure (.print value (start.span.upTo semi.span))
  | some (.symbol .lbrace) => do
    let _ ← bump
    let body ← call .block
    pure (.block body.1 (start.span.upTo body.2.span))
  | some (.keyword .ifWord) => do
    let _ ← bump
    let c ← call (.header "if")
    let yes ← call .stmt
    match ← accept (.keyword .elseWord) with
    | some _ => do
      let no ← call .stmt
      pure (.ite c yes (some no) (start.span.upTo no.span))
    | none => pure (.ite c yes none (start.span.upTo yes.span))
  | some (.keyword .whileWord) => do
    let _ ← bump
    let c ← call (.header "while")
    let body ← call .stmt
    pure (.loop c body (start.span.upTo body.span))
  | _ => problem ("expected statement, found " ++ start.describe)

def item : Reading Item := do
  let spot ← look
  match spot.kind? with
  | some (.keyword .intWord) | some (.keyword .floatWord) => do
    let d ← call .decl
    pure (.decl d)
  | _ => do
    let s ← call .stmt
    pure (.stmt s)

def block : Reading (List Item × Token) := do
  match ← look with
  | .finish _ => problem "unterminated block"
  | .token t =>
    if t.kind = .symbol .rbrace then do
      let _ ← bump
      pure ([], t)
    else do
      let u ← call .item
      let body ← call .block
      pure (u :: body.1, body.2)

def program : Reading (List Item) := do
  match ← look with
  | .finish _ => pure []
  | .token _ => do
    let u ← call .item
    let us ← call .program
    pure (u :: us)

def header (what : Bytes) : Reading Cond := do
  let _ ← expect (.symbol .lparen) ("after " ++ what)
  let c ← call .cond
  let _ ← expect (.symbol .rparen) ("after " ++ what ++ " condition")
  pure c

def condFrom (left : Cond) : Reading Cond := do
  match ← accept (.symbol .orOr) with
  | some _ => do
    let right ← call .conj
    call (.condFrom (.logical .or left right (left.span.upTo right.span)))
  | none => pure left

def conjFrom (left : Cond) : Reading Cond := do
  match ← accept (.symbol .andAnd) with
  | some _ => do
    let right ← call .negation
    call (.conjFrom (.logical .and left right (left.span.upTo right.span)))
  | none => pure left

/-- The rest of a condition in parentheses, after the one that opens it. -/
def nested (opening : Span) : Reading Cond := do
  let inner ← call .cond
  let closing ← expect (.symbol .rparen) "after condition"
  pure (inner.withSpan (opening.upTo closing.span))

/-- A comparison or, when that fails after a parenthesis, a condition in parentheses, read from the
same place on. -/
def operand (start : Spot) : Reading Cond := do
  let mark ← place
  match ← attempt (call .comparison) with
  | .ok c => pure c
  | .error failure =>
    if start.kind? ≠ some (.symbol .lparen) then fail failure
    else do
      let reached ← place
      putAt mark
      let _ ← bump
      orFurther failure reached (nested call start.span)

def negation : Reading Cond := do
  let start ← look
  match ← accept (.symbol .bang) with
  | some _ => do
    let inner ← call .negation
    pure (.not inner (start.span.upTo inner.span))
  | none => operand call start

def comparison : Reading Cond := do
  let left ← call .expr
  let spot ← look
  match spot.kind?.bind Parser.compareOp? with
  | some op => do
    let _ ← bump
    let right ← call .expr
    pure (.compare op left right (left.span.upTo right.span))
  | none => problem ("expected comparison operator, found " ++ spot.describe)

def exprFrom (left : Expr) : Reading Expr := do
  let spot ← look
  match spot.kind?.bind Parser.sumOp? with
  | some op => do
    let _ ← bump
    let right ← call .term
    call (.exprFrom (.binary op left right (left.span.upTo right.span)))
  | none => pure left

def termFrom (left : Expr) : Reading Expr := do
  let spot ← look
  match spot.kind?.bind Parser.productOp? with
  | some op => do
    let _ ← bump
    let right ← call .unary
    call (.termFrom (.binary op left right (left.span.upTo right.span)))
  | none => pure left

def unary : Reading Expr := do
  let start ← look
  match ← accept (.symbol .minus) with
  | some _ => do
    let inner ← call .unary
    pure (.neg inner (start.span.upTo inner.span))
  | none => call .primary

def primary : Reading Expr := do
  let spot ← look
  match spot.kind? with
  | some .int => do
    let _ ← bump
    match readInt64? spot.text with
    | some v => pure (.int v spot.span)
    | none => fail ⟨.parse, spot.span, "integer literal " ++ spot.text ++ " out of range"⟩
  | some .float => do
    let _ ← bump
    match Binary64.read? spot.text with
    | some v => pure (.float v spot.text spot.span)
    | none => fail ⟨.parse, spot.span, "float literal " ++ spot.text ++ " out of range"⟩
  | some .ident => do
    let _ ← bump
    pure (.var spot.text spot.span)
  | some (.keyword .readInt) => do
    let _ ← bump
    pure (.readInt spot.span)
  | some (.keyword .readFloat) => do
    let _ ← bump
    pure (.readFloat spot.span)
  | some (.symbol .lparen) => do
    let _ ← bump
    let inner ← call .expr
    let _ ← expect (.symbol .rparen) "after expression"
    pure inner
  | _ => problem ("expected expression, found " ++ spot.describe)

/-- What a rule does, given what the rules it calls do. -/
def body : (r : Rule) → Reading r.Result
  | .program => program call
  | .item => item call
  | .decl => decl call
  | .stmt => stmt call
  | .block => block call
  | .header what => header call what
  | .cond => do
    let left ← call .conj
    call (.condFrom left)
  | .condFrom left => condFrom call left
  | .conj => do
    let left ← call .negation
    call (.conjFrom left)
  | .conjFrom left => conjFrom call left
  | .negation => negation call
  | .comparison => comparison call
  | .expr => do
    let left ← call .term
    call (.exprFrom left)
  | .exprFrom left => exprFrom call left
  | .term => do
    let left ← call .unary
    call (.termFrom left)
  | .termFrom left => termFrom call left
  | .unary => unary call
  | .primary => primary call

end Rules

/-- Reads what a rule says, with calls no deeper than the fuel. -/
def run : Nat → (r : Rule) → Reading r.Result
  | 0, _ => fun _ _ => .unfinished
  | fuel + 1, r => body (run fuel) r

/-- The height of a rule above the rules it calls before it has moved the cursor. -/
def Rule.rank : Rule → Nat
  | .unary | .item => 1
  | .term | .program | .block => 2
  | .expr => 3
  | .comparison => 4
  | .negation => 5
  | .conj => 6
  | .cond => 7
  | _ => 0

/-- How deep the calls of a rule can go when some tokens are left. Every call in which the cursor
has moved leaves fewer of them, and every other call is of a lower rule. -/
def Rule.depth (r : Rule) (left : Nat) : Nat := 8 * left + r.rank

end Cursor
end Signum
