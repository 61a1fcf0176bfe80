import Signum.Markdown.Inlines
import Signum.Markdown.Line
/- Cutting a document into blocks.

   Lines are taken one after another. A line first continues the blocks that are
   open, from the outermost inwards, as long as it carries their marks; what is
   left of it may then start new blocks, which closes those it did not continue.
   A line that starts nothing goes on with an open paragraph, even without the
   marks of the blocks around it. -/
namespace Signum.Markdown

/-- A finished block, with whether a blank line precedes it in its place. -/
structure Child where
  blank : Bool
  block : Block Bytes
  deriving Repr

/-- An open block that holds other blocks, which are kept with the last first.
Items stand in lists only. -/
inductive Frame where
  | quote (blank : Bool) (done : List Child)
  | list (blank : Bool) (mark : UInt8) (start : Option Nat) (items : List (Bool × List Child))
  | item (blank : Bool) (offset : Nat) (done : List Child)
  deriving Repr

/-- The open block that holds lines, which are kept with the last first. -/
inductive Leaf where
  | none
  | paragraph (blank : Bool) (lines : List Bytes)
  | fenced (blank : Bool) (mark : UInt8) (size indent : Nat) (info : Option Bytes)
      (lines : List Bytes)
  | indented (blank : Bool) (lines : List Bytes)
  | markup (blank : Bool) (kind : MarkupKind)
  deriving Repr

/-- A document being cut: the finished blocks and the frames, both with the last
first, the leaf, the links defined so far, and how many frames the last line had
continued when nothing but blanks was left of it. -/
structure Cutting where
  done : List Child
  frames : List Frame
  leaf : Leaf
  definitions : Definitions
  blankFrom : Option Nat

/-- Blocks in order from blocks kept with the last first. -/
def inOrder (children : List Child) : List (Block Bytes) := (children.map Child.block).reverse

/-- A list is loose when a blank line precedes one of its items but the first, or
a block but the first in one of its items. Items are given in order, their blocks
with the last first. -/
def isLoose (items : List (Bool × List Child)) : Bool :=
  (items.drop 1).any Prod.fst || items.any fun item => item.2.dropLast.any Child.blank

/-- A block in an item of a tight list. -/
def tighten : Block Bytes → Block Bytes
  | .paragraph text => .plain text
  | b => b

/-- A list from its items, kept with the last first. -/
def closedList (start : Option Nat) (items : List (Bool × List Child)) : Block Bytes :=
  let items := items.reverse
  let blocks := items.map fun item => inOrder item.2
  .list start (if isLoose items then blocks else blocks.map (·.map tighten))

namespace Cutting

/-- Nothing cut yet. -/
def start : Cutting := ⟨[], [], .none, [], none⟩

/-- Whether a blank line precedes in the place inside all open frames. -/
def blankHere (o : Cutting) : Bool :=
  match o.blankFrom with
  | some n => n ≤ o.frames.length
  | none => false

/-- Adds a finished block to the innermost frame. -/
def add (c : Child) (o : Cutting) : Cutting :=
  match o.frames with
  | .quote blank done :: rest => { o with frames := .quote blank (c :: done) :: rest }
  | .item blank offset done :: rest => { o with frames := .item blank offset (c :: done) :: rest }
  | _ => { o with done := c :: o.done }

/-- The text of a paragraph's lines without the definitions it starts with. -/
def paragraphText (lines : List Bytes) : Definitions × Bytes :=
  takeDefinitions (trimRight lines.reverse.flatten)

/-- Closes the leaf. A paragraph of definitions alone leaves an empty place. -/
def closeLeaf (o : Cutting) : Cutting :=
  let closed := { o with leaf := .none }
  match o.leaf with
  | .none => o
  | .paragraph blank lines =>
    let (definitions, text) := paragraphText lines
    let block : Block Bytes := if isBlank text then .plain [] else .paragraph text
    { closed with definitions := o.definitions ++ definitions }.add ⟨blank, block⟩
  | .fenced blank _ _ _ info lines => closed.add ⟨blank, .fenced info lines.reverse.flatten⟩
  | .indented blank lines =>
    closed.add ⟨blank, .indented (lines.dropWhile isBlank).reverse.flatten⟩
  | .markup blank _ => closed.add ⟨blank, .markup false⟩

/-- Closes the innermost frame. -/
def closeFrame (o : Cutting) : Cutting :=
  match o.frames with
  | [] => o
  | .quote blank done :: rest => { o with frames := rest }.add ⟨blank, .quote (inOrder done)⟩
  | .item blank _ done :: .list b mark start items :: rest =>
    { o with frames := .list b mark start ((blank, done) :: items) :: rest }
  | .item _ _ done :: rest => { o with frames := rest, done := done ++ o.done }
  | .list blank _ start items :: rest =>
    { o with frames := rest }.add ⟨blank, closedList start items⟩

/-- Closes `n` frames, the innermost first. -/
def closeFrames : Nat → Cutting → Cutting
  | 0, o => o
  | n + 1, o => closeFrames n o.closeFrame

/-- Closes the leaf and all but `n` frames. -/
def closeTo (n : Nat) (o : Cutting) : Cutting :=
  let o := o.closeLeaf
  o.closeFrames (o.frames.length - n)

/-- Closes the innermost frame when it is a list without an open item. -/
def closeList (o : Cutting) : Cutting :=
  match o.frames with
  | .list _ _ _ _ :: _ => o.closeFrame
  | _ => o

end Cutting

/-- What is left of a line after the mark of a frame, when it carries it; `empty`
when the frame holds nothing yet. Blank lines continue an item unless it is
empty, and so does a line indented to its text; but a list item after an empty
one is not inside it. -/
def Frame.continued? (empty : Bool) (l : Line) : Frame → Option Line
  | .quote _ _ => quoted? l
  | .list _ _ _ _ => some l
  | .item _ offset done =>
    let empty := empty && done.isEmpty
    if l.blank then if empty then none else some { l with text := l.text.drop (l.text.length - 1) }
    else if empty && (marker? l).isSome then none
    else if offset ≤ l.indent then some (l.skip offset)
    else none

/-- The frames that a line continues, the outermost being given first: how many,
what is left of the line, and how many it had continued when nothing but blanks
was left. `bare` when there is no leaf. -/
def continueFrames (bare : Bool) : (n : Nat) → List Frame → Line → Nat × Line × Option Nat
  | n, [], l => (n, l, if l.blank then some n else none)
  | n, f :: rest, l =>
    match f.continued? (bare && rest.isEmpty) l with
    | some left =>
      let (m, last, blank) := continueFrames bare (n + 1) rest left
      (m, last, if l.blank then some n else blank)
    | none => (n, l, if l.blank then some n else none)

/-- What a line can start. -/
inductive Start where
  | heading (level : Nat) (text : Bytes)
  | underline (level : Nat)
  | rule
  | fence (mark : UInt8) (size : Nat) (info : Option Bytes)
  | indented
  | markup (kind : MarkupKind)
  | quote (rest : Line)
  | item (m : Marker)

/-- What a line starts. With `interrupts` a paragraph is open, and with `same` in
the very place of the line; it can then be underlined if `underlined`. An item
interrupts a paragraph only when it has text and is not numbered other than 1. -/
def start? (interrupts same underlined : Bool) (l : Line) : Option Start :=
  if l.blank then none
  else if 3 < l.indent then if interrupts then none else some .indented
  else
    let underline := if same && underlined then underline? l else none
    let item := (marker? l).bind fun m =>
      if same && (m.rest.isNone || (m.number.isSome && m.number != some 1)) then none else some m
    match underline, item with
    | some level, _ => some (.underline level)
    | none, item =>
      if isRule l then some .rule
      else match item with
        | some m => some (.item m)
        | none =>
          match atxHeading? l with
          | some (level, text) => some (.heading level text)
          | none =>
            match fence? l with
            | some (mark, size, info) => some (.fence mark size info)
            | none =>
              match quoted? l with
              | some rest => some (.quote rest)
              | none => (markupBlock? interrupts l).map .markup

namespace Cutting

/-- Opens an item, in the innermost frame when that is a list it fits. -/
def openItem (m : Marker) (o : Cutting) : Cutting :=
  let fits := match o.frames with
    | .list _ mark start _ :: _ => mark == m.mark && start.isSome == m.number.isSome
    | _ => false
  let o :=
    if fits then o
    else
      let o := o.closeList
      { o with frames := .list o.blankHere m.mark m.number [] :: o.frames }
  { o with frames := .item o.blankHere m.offset [] :: o.frames }

/-- Starts a block that holds other blocks no more. -/
def openLeaf (l : Line) (s : Start) (o : Cutting) : Cutting :=
  let o := o.closeList
  let blank := o.blankHere
  match s with
  | .heading level text => o.add ⟨blank, .heading level text⟩
  | .rule => o.add ⟨blank, .rule⟩
  | .fence mark size info => { o with leaf := .fenced blank mark size l.indent info [] }
  | .indented => { o with leaf := .indented blank [(l.skip 4).text] }
  | .markup kind =>
    if kind.ends l.text then o.add ⟨blank, .markup false⟩
    else { o with leaf := .markup blank kind }
  | .underline _ | .quote _ | .item _ => o

/-- Opens what a line starts, and in it what the rest of the line starts. -/
def openAll (l : Line) (s : Option Start) (o : Cutting) : Cutting :=
  let weight : Line → Nat := fun l => (l.text.filter (!Line.isIndent ·)).length
  match s with
  | none =>
    if l.blank then o
    else
      let o := o.closeList
      { o with leaf := .paragraph o.blankHere [trimLeft l.text] }
  | some (.quote rest) =>
    let o := o.closeList
    let o := { o with frames := .quote o.blankHere [] :: o.frames }
    if weight rest < weight l then openAll rest (start? false false false rest) o else o
  | some (.item m) =>
    let o := o.openItem m
    match m.rest with
    | some rest =>
      if weight rest < weight l then openAll rest (start? false false false rest) o else o
    | none => o
  | some s => o.openLeaf l s
termination_by (l.text.filter (!Line.isIndent ·)).length

/-- Continues the leaf with a line that has continued all frames, when it can. -/
def continueLeaf? (l : Line) (o : Cutting) : Option Cutting :=
  match o.leaf with
  | .fenced blank mark size indent info lines =>
    if closesFence mark size l then some o.closeLeaf
    else
      let text := if indent ≤ l.indent then (l.skip indent).text
        else if l.blank then l.text else l.content
      some { o with leaf := .fenced blank mark size indent info (text :: lines) }
  | .indented blank lines =>
    if l.blank || 4 ≤ l.indent then
      some { o with leaf := .indented blank ((l.skip 4).text :: lines) }
    else none
  | .markup blank kind =>
    if kind.ends l.text then
      if kind = .untilBlank then some o.closeLeaf
      else some ({ o with leaf := .none }.add ⟨blank, .markup true⟩)
    else some o
  | .paragraph _ _ | .none => none

/-- The open paragraph as a heading. -/
def underlineLeaf (level : Nat) (o : Cutting) : Cutting :=
  match o.leaf with
  | .paragraph blank lines =>
    let (definitions, text) := paragraphText lines
    { o with leaf := .none, definitions := o.definitions ++ definitions }.add
      ⟨blank, .heading level text⟩
  | _ => o

/-- Takes a line that did not continue the leaf and continued `n` frames. -/
def startLine (n : Nat) (l : Line) (o : Cutting) : Cutting :=
  match o.leaf with
  | .paragraph blank lines =>
    let same := n = o.frames.length
    match start? true same (!isBlank (paragraphText lines).2) l with
    | some (.underline level) => o.underlineLeaf level
    | some s => (o.closeTo n).openAll l (some s)
    | none =>
      if l.blank then o.closeTo n
      else { o with leaf := .paragraph blank (trimLeft l.text :: lines) }
  | _ => (o.closeTo n).openAll l (start? false false false l)

/-- Takes the next line. -/
def line (o : Cutting) (text : Bytes) : Cutting :=
  let bare := match o.leaf with
    | .none => true
    | _ => false
  let (n, l, blank) := continueFrames bare 0 o.frames.reverse ⟨0, text⟩
  let continued := if n = o.frames.length then o.continueLeaf? l else none
  { continued.getD (o.startLine n l) with blankFrom := blank }

end Cutting

/-- The blocks of a document and the links it defines. -/
def blocks (text : Bytes) : List (Block Bytes) × Definitions :=
  let o := ((splitLines text).foldl Cutting.line .start).closeTo 0
  (inOrder o.done, o.definitions)

/-- Reads a document. -/
def parse (text : Bytes) : Document :=
  let (bs, definitions) := blocks text
  Block.mapAll (inlines definitions) bs

end Signum.Markdown
