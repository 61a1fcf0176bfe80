import Signum.Number.Reading
import Signum.Syntax.Lexer
import Signum.Syntax.Tree
/- Reading a program from its tokens.

   The parser is a set of functions from the tokens that are left to a `Step`:
   a part of the tree with a strictly shorter rest, or the first problem with
   the tokens left when it was found. That the rest is shorter is what makes the
   recursion end. A parenthesis in a condition opens an operand or a nested
   condition; the comparison is tried first, and when both readings fail the
   problem of the one that got further is reported. -/
namespace Signum
namespace Parser

/-- What reading yields: a value and fewer than `n` tokens, or a problem and the
tokens left where it was found. -/
inductive Step (α : Type) (n : Nat) where
  | ok (value : α) (rest : List Token) (shorter : rest.length < n)
  | error (failure : Failure) (reached : List Token)

namespace Step

/-- Goes on with what was read. -/
def bind {α β : Type} {m n : Nat} (x : Step α m)
    (f : (a : α) → (rest : List Token) → rest.length < m → Step β n) : Step β n :=
  match x with
  | .ok a rest h => f a rest h
  | .error e r => .error e r

/-- Forgets how much shorter the rest is. -/
def weaken {α : Type} {m n : Nat} (h : m ≤ n) : Step α m → Step α n
  | .ok a rest h' => .ok a rest (Nat.lt_of_lt_of_le h' h)
  | .error e r => .error e r

end Step

/-- The place of the next token; at the end, the end of the source. -/
def placeOf (finish : Point) : List Token → Span
  | t :: _ => t.span
  | [] => ⟨finish, finish⟩

/-- The next token in messages. -/
def describeNext : List Token → Bytes
  | t :: _ => t.describe
  | [] => "end of file"

/-- A problem with the next token. -/
def problem {α : Type} {n : Nat} (finish : Point) (ts : List Token) (message : Bytes) : Step α n :=
  .error ⟨.parse, placeOf finish ts, message⟩ ts

/-- Reads a token of the given kind; `what` says where it belongs. -/
def expect (finish : Point) (kind : TokenKind) (what : Bytes) (ts : List Token) :
    Step Token ts.length :=
  match ts with
  | t :: rest =>
    if t.kind = kind then .ok t rest (by simp)
    else problem finish (t :: rest)
      ("expected " ++ kind.name ++ " " ++ what ++ ", found " ++ t.describe)
  | [] => problem finish [] ("expected " ++ kind.name ++ " " ++ what ++ ", found end of file")

/-- The operator of a sum. -/
def sumOp? : TokenKind → Option BinaryOp
  | .symbol .plus => some .add
  | .symbol .minus => some .sub
  | _ => none

/-- The operator of a product. -/
def productOp? : TokenKind → Option BinaryOp
  | .symbol .star => some .mul
  | .symbol .slash => some .div
  | _ => none

/-- The operator of a comparison. -/
def compareOp? : TokenKind → Option CompareOp
  | .symbol .eq => some .eq
  | .symbol .ne => some .ne
  | .symbol .lt => some .lt
  | .symbol .gt => some .gt
  | .symbol .le => some .le
  | .symbol .ge => some .ge
  | _ => none

mutual

/-- A sum of terms. -/
def expr (finish : Point) (ts : List Token) : Step Expr ts.length :=
  (term finish ts).bind fun left rest h => (exprTail finish left rest).weaken h
termination_by 4 * ts.length + 3

/-- Further terms of a sum whose first ones are `left`. -/
def exprTail (finish : Point) (left : Expr) (ts : List Token) : Step Expr (ts.length + 1) :=
  match ts with
  | t :: rest =>
    match sumOp? t.kind with
    | some op =>
      (term finish rest).bind fun right rest' _ =>
        (exprTail finish (.binary op left right (left.span.upTo right.span)) rest').weaken
          (by simp only [List.length_cons]; omega)
    | none => .ok left (t :: rest) (Nat.lt_succ_self _)
  | [] => .ok left [] (Nat.lt_succ_self _)
termination_by 4 * ts.length

/-- A product of signed primaries. -/
def term (finish : Point) (ts : List Token) : Step Expr ts.length :=
  (unary finish ts).bind fun left rest h => (termTail finish left rest).weaken h
termination_by 4 * ts.length + 2

/-- Further factors of a product whose first ones are `left`. -/
def termTail (finish : Point) (left : Expr) (ts : List Token) : Step Expr (ts.length + 1) :=
  match ts with
  | t :: rest =>
    match productOp? t.kind with
    | some op =>
      (unary finish rest).bind fun right rest' _ =>
        (termTail finish (.binary op left right (left.span.upTo right.span)) rest').weaken
          (by simp only [List.length_cons]; omega)
    | none => .ok left (t :: rest) (Nat.lt_succ_self _)
  | [] => .ok left [] (Nat.lt_succ_self _)
termination_by 4 * ts.length

/-- A primary with any number of minus signs before it. -/
def unary (finish : Point) (ts : List Token) : Step Expr ts.length :=
  match ts with
  | t :: rest =>
    if t.kind = .symbol .minus then
      (unary finish rest).bind fun operand rest' _ =>
        .ok (.neg operand (t.span.upTo operand.span)) rest' (by simp only [List.length_cons]; omega)
    else primary finish (t :: rest)
  | [] => primary finish []
termination_by 4 * ts.length + 1

/-- A literal, a variable, a read or an expression in parentheses. -/
def primary (finish : Point) (ts : List Token) : Step Expr ts.length :=
  match ts with
  | [] => problem finish [] "expected expression, found end of file"
  | t :: rest =>
    match t.kind with
    | .int =>
      match readInt64? t.text with
      | some v => .ok (.int v t.span) rest (by simp)
      | none =>
        .error ⟨.parse, t.span, "integer literal " ++ t.text ++ " out of range"⟩ rest
    | .float =>
      match Binary64.read? t.text with
      | some v => .ok (.float v t.text t.span) rest (by simp)
      | none => .error ⟨.parse, t.span, "float literal " ++ t.text ++ " out of range"⟩ rest
    | .ident => .ok (.var t.text t.span) rest (by simp)
    | .keyword .readInt => .ok (.readInt t.span) rest (by simp)
    | .keyword .readFloat => .ok (.readFloat t.span) rest (by simp)
    | .symbol .lparen =>
      (expr finish rest).bind fun inner rest' _ =>
        (expect finish (.symbol .rparen) "after expression" rest').bind fun _ rest'' _ =>
          .ok inner rest'' (by simp only [List.length_cons]; omega)
    | _ => problem finish (t :: rest) ("expected expression, found " ++ t.describe)
termination_by 4 * ts.length

end

/-- Two expressions and the operator between them. -/
def comparison (finish : Point) (ts : List Token) : Step Cond ts.length :=
  (expr finish ts).bind fun left rest _ =>
    match rest with
    | t :: rest' =>
      match compareOp? t.kind with
      | some op =>
        (expr finish rest').bind fun right rest'' _ =>
          .ok (.compare op left right (left.span.upTo right.span)) rest''
            (by simp only [List.length_cons] at *; omega)
      | none =>
        problem finish (t :: rest') ("expected comparison operator, found " ++ t.describe)
    | [] => problem finish [] "expected comparison operator, found end of file"

mutual

/-- A disjunction. -/
def cond (finish : Point) (ts : List Token) : Step Cond ts.length :=
  (conj finish ts).bind fun left rest h => (condTail finish left rest).weaken h
termination_by 3 * ts.length + 2

/-- Further parts of a disjunction whose first ones are `left`. -/
def condTail (finish : Point) (left : Cond) (ts : List Token) : Step Cond (ts.length + 1) :=
  match ts with
  | t :: rest =>
    if t.kind = .symbol .orOr then
      (conj finish rest).bind fun right rest' _ =>
        (condTail finish (.logical .or left right (left.span.upTo right.span)) rest').weaken
          (by simp only [List.length_cons]; omega)
    else .ok left (t :: rest) (Nat.lt_succ_self _)
  | [] => .ok left [] (Nat.lt_succ_self _)
termination_by 3 * ts.length

/-- A conjunction. -/
def conj (finish : Point) (ts : List Token) : Step Cond ts.length :=
  (negation finish ts).bind fun left rest h => (conjTail finish left rest).weaken h
termination_by 3 * ts.length + 1

/-- Further parts of a conjunction whose first ones are `left`. -/
def conjTail (finish : Point) (left : Cond) (ts : List Token) : Step Cond (ts.length + 1) :=
  match ts with
  | t :: rest =>
    if t.kind = .symbol .andAnd then
      (negation finish rest).bind fun right rest' _ =>
        (conjTail finish (.logical .and left right (left.span.upTo right.span)) rest').weaken
          (by simp only [List.length_cons]; omega)
    else .ok left (t :: rest) (Nat.lt_succ_self _)
  | [] => .ok left [] (Nat.lt_succ_self _)
termination_by 3 * ts.length

/-- A comparison or a condition in parentheses, with any number of negations
before it. -/
def negation (finish : Point) (ts : List Token) : Step Cond ts.length :=
  match ts with
  | [] => comparison finish []
  | t :: rest =>
    if t.kind = .symbol .bang then
      (negation finish rest).bind fun operand rest' _ =>
        .ok (.not operand (t.span.upTo operand.span)) rest' (by simp only [List.length_cons]; omega)
    else match comparison finish (t :: rest) with
      | .ok c rest' h => .ok c rest' h
      | .error failure reached =>
        if t.kind ≠ .symbol .lparen then .error failure reached
        else
          let nested : Step Cond (t :: rest).length :=
            (cond finish rest).bind fun inner rest' _ =>
              (expect finish (.symbol .rparen) "after condition" rest').bind fun closing rest'' _ =>
                .ok (inner.withSpan (t.span.upTo closing.span)) rest''
                  (by simp only [List.length_cons]; omega)
          match nested with
          | .ok c rest' h => .ok c rest' h
          | .error failure' reached' =>
            .error (if reached.length < reached'.length then failure else failure') reached'
termination_by 3 * ts.length

end

/-- A condition in parentheses after the word `what`. -/
def header (finish : Point) (what : Bytes) (ts : List Token) : Step Cond ts.length :=
  (expect finish (.symbol .lparen) ("after " ++ what) ts).bind fun _ rest _ =>
    (cond finish rest).bind fun c rest' _ =>
      (expect finish (.symbol .rparen) ("after " ++ what ++ " condition") rest').bind
        fun _ rest'' _ => .ok c rest'' (by omega)

/-- A declaration, after its type `t`. -/
def decl (finish : Point) (type : NumType) (t : Token) (ts : List Token) : Step Decl ts.length :=
  (expect finish .ident "after type" ts).bind fun name rest _ =>
    let close (init : Option Expr) (rest : List Token) (_ : rest.length < ts.length) :
        Step Decl ts.length :=
      (expect finish (.symbol .semi) "after declaration" rest).bind fun semi rest' _ =>
        .ok ⟨type, name.text, init, t.span.upTo semi.span⟩ rest' (by omega)
    match rest with
    | u :: rest' =>
      if u.kind = .symbol .assign then
        (expr finish rest').bind fun init rest'' _ =>
          close (some init) rest'' (by simp only [List.length_cons] at *; omega)
      else close none (u :: rest') (by assumption)
    | [] => close none [] (by assumption)

mutual

/-- A statement. -/
def stmt (finish : Point) (ts : List Token) : Step Stmt ts.length :=
  match ts with
  | [] => problem finish [] "expected statement, found end of file"
  | t :: rest =>
    match t.kind with
    | .ident =>
      (expect finish (.symbol .assign) "in assignment" rest).bind fun _ rest₁ _ =>
        (expr finish rest₁).bind fun value rest₂ _ =>
          (expect finish (.symbol .semi) "after assignment" rest₂).bind fun semi rest₃ _ =>
            .ok (.assign t.text value (t.span.upTo semi.span)) rest₃
              (by simp only [List.length_cons]; omega)
    | .keyword .printWord =>
      (expr finish rest).bind fun value rest₁ _ =>
        (expect finish (.symbol .semi) "after print" rest₁).bind fun semi rest₂ _ =>
          .ok (.print value (t.span.upTo semi.span)) rest₂ (by simp only [List.length_cons]; omega)
    | .symbol .lbrace =>
      (blockItems finish rest).bind fun (units, closing) rest₁ _ =>
        .ok (.block units (t.span.upTo closing.span)) rest₁ (by simp only [List.length_cons]; omega)
    | .keyword .ifWord =>
      (header finish "if" rest).bind fun c rest₁ _ =>
        (stmt finish rest₁).bind fun yes rest₂ _ =>
          match rest₂ with
          | u :: rest₃ =>
            if u.kind = .keyword .elseWord then
              (stmt finish rest₃).bind fun no rest₄ _ =>
                .ok (.ite c yes (some no) (t.span.upTo no.span)) rest₄
                  (by simp only [List.length_cons] at *; omega)
            else .ok (.ite c yes none (t.span.upTo yes.span)) (u :: rest₃)
              (by simp only [List.length_cons] at *; omega)
          | [] => .ok (.ite c yes none (t.span.upTo yes.span)) [] (by simp)
    | .keyword .whileWord =>
      (header finish "while" rest).bind fun c rest₁ _ =>
        (stmt finish rest₁).bind fun body rest₂ _ =>
          .ok (.loop c body (t.span.upTo body.span)) rest₂ (by simp only [List.length_cons]; omega)
    | _ => problem finish (t :: rest) ("expected statement, found " ++ t.describe)
termination_by 3 * ts.length
decreasing_by all_goals (simp only [List.length_cons] at *; omega)

/-- A declaration or a statement. -/
def item (finish : Point) (ts : List Token) : Step Item ts.length :=
  let declared (type : NumType) (t : Token) (rest : List Token) : Step Item (rest.length + 1) :=
    (decl finish type t rest).bind fun d rest' _ => .ok (.decl d) rest' (by omega)
  match ts with
  | t :: rest =>
    match t.kind with
    | .keyword .intWord => declared .int t rest
    | .keyword .floatWord => declared .float t rest
    | _ => (stmt finish (t :: rest)).bind fun s rest' h => .ok (.stmt s) rest' h
  | [] => (stmt finish []).bind fun s rest' h => .ok (.stmt s) rest' h
termination_by 3 * ts.length + 1

/-- The units of a block up to and with its closing brace. -/
def blockItems (finish : Point) (ts : List Token) : Step (List Item × Token) ts.length :=
  match ts with
  | [] => problem finish [] "unterminated block"
  | t :: rest =>
    if t.kind = .symbol .rbrace then .ok ([], t) rest (by simp)
    else (item finish (t :: rest)).bind fun u rest₁ _ =>
      (blockItems finish rest₁).bind fun (units, closing) rest₂ _ =>
        .ok (u :: units, closing) rest₂ (by omega)
termination_by 3 * ts.length + 2
decreasing_by all_goals (simp only [List.length_cons] at *; omega)

end

/-- The units of a program up to the end of its tokens. -/
def items (finish : Point) (ts : List Token) : Except Failure (List Item) :=
  match ts with
  | [] => .ok []
  | t :: rest =>
    match item finish (t :: rest) with
    | .error failure _ => .error failure
    | .ok u rest' _ => (items finish rest').map (u :: ·)
termination_by ts.length
decreasing_by simp only [List.length_cons] at *; omega

end Parser

/-- Reads a program from its source. -/
def Program.parse (source : Bytes) : Except Failure Program :=
  match Lexer.tokenize source with
  | .error failure => .error failure
  | .ok lexed =>
    (Parser.items lexed.finish lexed.tokens).map fun units =>
      { units, documentation := Lexer.commentText lexed.header,
        span := ⟨Point.origin, lexed.finish⟩ }

end Signum
