import Signum.Text.Bytes
/- Markdown documents.

   A document is a sequence of blocks. Blocks hold inline content, or other
   blocks, or lines of text. The type of blocks is over the type of their
   content: blocks are first cut out with the text of each as it stands, and the
   text is then read as inline content.

   The text of an inline is kept as it was written, with its escapes and
   character references; both are resolved when the text is written out. -/
namespace Signum.Markdown

/-- How a run of text ends: inside a line, at the end of one, or with a break
that the reader is to see. -/
inductive LineEnd where
  | none
  | soft
  | hard
  deriving DecidableEq, Repr

/-- Where a link or an image points, with its title. -/
structure Target where
  destination : Bytes
  title : Option Bytes
  deriving DecidableEq, Repr

/-- Inline content. -/
inductive Inline where
  | text (raw : Bytes) (ending : LineEnd)
  | code (raw : Bytes)
  | emphasis (strong : Bool) (content : List Inline)
  | link (target : Target) (content : List Inline)
  | image (target : Target) (content : List Inline)
  /-- An address between angle brackets. -/
  | address (email : Bool) (raw : Bytes)
  /-- A tag or another piece of raw markup. -/
  | markup
  /-- A variable mentioned as `@name`. -/
  | mention (name : Bytes)
  deriving Repr

/-- A block whose content is of type `α`. -/
inductive Block (α : Type) where
  | paragraph (content : α)
  /-- A paragraph of a tight list, or the empty place of one that held only
  definitions of links. -/
  | plain (content : α)
  | heading (level : Nat) (content : α)
  | quote (blocks : List (Block α))
  /-- A list, with the first number when it is an ordered one. -/
  | list (start : Option Nat) (items : List (List (Block α)))
  | fenced (info : Option Bytes) (text : Bytes)
  | indented (text : Bytes)
  | rule
  /-- A block of raw markup; `closed` when a later line than its first ended it. -/
  | markup (closed : Bool)
  deriving Repr

namespace Inline

mutual

/-- The text of an inline as it was written, without the breaks between lines. -/
def written : Inline → Bytes
  | .text raw _ | .code raw | .address _ raw => raw
  | .emphasis _ content | .link _ content | .image _ content => writtenAll content
  | .markup => []
  | .mention name => name

/-- The text of a sequence of inlines as it was written. -/
def writtenAll : List Inline → Bytes
  | [] => []
  | i :: rest => written i ++ writtenAll rest

end

end Inline

namespace Block

mutual

/-- Applies `f` to the content of a block and of the blocks in it. -/
def map {α β : Type} (f : α → β) : Block α → Block β
  | .paragraph c => .paragraph (f c)
  | .plain c => .plain (f c)
  | .heading n c => .heading n (f c)
  | .quote bs => .quote (mapAll f bs)
  | .list start items => .list start (mapItems f items)
  | .fenced info text => .fenced info text
  | .indented text => .indented text
  | .rule => .rule
  | .markup closed => .markup closed

/-- Applies `f` to the content of each block. -/
def mapAll {α β : Type} (f : α → β) : List (Block α) → List (Block β)
  | [] => []
  | b :: rest => map f b :: mapAll f rest

/-- Applies `f` to the content of each item. -/
def mapItems {α β : Type} (f : α → β) : List (List (Block α)) → List (List (Block β))
  | [] => []
  | item :: rest => mapAll f item :: mapItems f rest

end

mutual

/-- The text of the inline content of a block, and of the blocks in it, as it was
written. Lines of code and raw markup are not inline content. -/
def written : Block (List Inline) → Bytes
  | .paragraph c | .plain c | .heading _ c => Inline.writtenAll c
  | .quote bs => writtenAll bs
  | .list _ items => writtenItems items
  | .fenced _ _ | .indented _ | .rule | .markup _ => []

/-- The text of a sequence of blocks as it was written. -/
def writtenAll : List (Block (List Inline)) → Bytes
  | [] => []
  | b :: rest => written b ++ writtenAll rest

/-- The text of a sequence of items as it was written. -/
def writtenItems : List (List (Block (List Inline))) → Bytes
  | [] => []
  | item :: rest => writtenAll item ++ writtenItems rest

end

end Block

/-- A document. -/
abbrev Document := List (Block (List Inline))

end Signum.Markdown
