import Signum.Markdown.Blocks
import Signum.Markdown.Html
import Signum.Text.Blank
/- The documentation of a program.

   The comment at the top of a source is markdown. Its first paragraph is the
   summary. A list at its end may have an item `Variables:` with a list that
   documents variables by name, and an item `Expects:` with the result the author
   expects. All other blocks are the discussion, where headings are one level
   deeper. -/
namespace Signum

open Markdown

/-- Content taken out of its place in a comment. -/
inductive Passage where
  | blocks (bs : List (Block (List Inline)))
  | inlines (is : List Inline)
  | listItems (items : List (List (Block (List Inline))))
  deriving Repr

/-- A passage in HTML. -/
def Passage.html (resolver : Resolver) : Passage → Except HtmlFault Bytes
  | .blocks bs => Block.htmlAll resolver bs
  | .inlines is => Inline.htmlAll resolver is
  | .listItems items => Block.htmlItems resolver items

/-- What a comment says. -/
structure Documentation where
  comment : Bytes
  summary : Option (List Inline)
  discussion : List (Block (List Inline))
  «variables» : List (Bytes × Passage)
  expects : Option Passage
  deriving Repr

namespace Documentation

/-- Drops `lead` from a run of text at the start: the whole run when nothing else
is in it but blanks, and otherwise its bytes and the blanks after it. A run that
is too short for it cannot be cut. -/
def cutLead? (lead : Bytes) : List Inline → Option (List Inline)
  | .text raw ending :: rest =>
    if Bytes.trim raw = lead then some rest
    else if raw.length < lead.length then none
    else some (.text (trimLeft (raw.drop lead.length)) ending :: rest)
  | is => some is

/-- Drops `lead` from the text that a block starts with. -/
def cutBlock? (lead : Bytes) : Block (List Inline) → Option (Block (List Inline))
  | .paragraph content => (cutLead? lead content).map .paragraph
  | .plain content => (cutLead? lead content).map .plain
  | .heading level content => (cutLead? lead content).map (.heading level)
  | b => some b

/-- Drops `lead` from the text that the content of an inline starts with. -/
def cutInline? (lead : Bytes) : Inline → Option Inline
  | .emphasis strong content => (cutLead? lead content).map (.emphasis strong)
  | .link target content => (cutLead? lead content).map (.link target)
  | .image target content => (cutLead? lead content).map (.image target)
  | i => some i

/-- Drops `lead` from the first of the blocks; there has to be one. -/
def cutItem? (lead : Bytes) : List (Block (List Inline)) → Option (List (Block (List Inline)))
  | [] => none
  | b :: rest => (cutBlock? lead b).map (· :: rest)

/-- Drops `lead` from the first of the inlines; there has to be one. -/
def cutInlines? (lead : Bytes) : List Inline → Option (List Inline)
  | [] => none
  | i :: rest => (cutInline? lead i).map (· :: rest)

/-- Code as text that stands for itself, each mark in it escaped. -/
def literal (raw : Bytes) : Inline :=
  .text (raw.flatMap fun b => if Bytes.isPunct b then [92, b] else [b]) .none

/-- An entry that may document a variable: its text, and its content without a
lead, which cannot always be cut off. -/
structure Entry where
  text : Bytes
  content : (lead : Bytes) → Option Passage

/-- A list item as an entry. -/
def Entry.ofItem (item : List (Block (List Inline))) : Entry :=
  ⟨Block.writtenAll item, fun lead => (cutItem? lead item).map .blocks⟩

/-- A block as an entry. -/
def Entry.ofBlock (b : Block (List Inline)) : Entry :=
  ⟨b.written, fun lead =>
    match b with
    | .paragraph content | .plain content | .heading _ content =>
      (cutInlines? lead content).map .inlines
    | .quote bs => (cutItem? lead bs).map .blocks
    | .list _ items => if items.isEmpty then none else some (.listItems items)
    | _ => none⟩

/-- An inline as an entry. -/
def Entry.ofInline (i : Inline) : Entry :=
  ⟨i.written, fun lead =>
    match i with
    | .emphasis _ content | .link _ content | .image _ content =>
      (cutInlines? lead content).map .inlines
    | .code raw => some (.inlines [literal raw])
    | .mention name => some (.inlines [.text name .none])
    | .text _ _ | .address _ _ | .markup => none⟩

/-- The entries in a block. -/
def entries : Block (List Inline) → List Entry
  | .paragraph content | .plain content | .heading _ content => content.map .ofInline
  | .quote bs => bs.map .ofBlock
  | .list _ items => items.map .ofItem
  | .fenced _ _ | .indented _ | .rule | .markup _ => []

/-- Documents a variable; a later entry for a name replaces an earlier one. -/
def document (d : Documentation) (name : Bytes) (content : Passage) : Documentation :=
  { d with «variables» := d.variables.filter (fun v => v.1 != name) ++ [(name, content)] }

/-- Takes an entry: the text before its first colon is the name. Entries without
a colon are passed over. -/
def takeDocumented? (d : Documentation) (e : Entry) : Option Documentation :=
  match Bytes.cut 58 e.text with
  | none => some d
  | some (name, _) => (e.content (name ++ ":")).map (d.document name.trim)

/-- The text that a list item starts with, when it starts with text. -/
def headText? : List (Block (List Inline)) → Option Bytes
  | .paragraph content :: _ | .plain content :: _ => some (Inline.writtenAll content)
  | _ => none

/-- Takes an item of the last list: the variables, the expected result, or
nothing. -/
def takeItem? (d : Documentation) (item : List (Block (List Inline))) : Option Documentation :=
  match headText? item with
  | none => some d
  | some head =>
    match item with
    | _ :: next :: _ =>
      if head = "Variables:" then (entries next).foldlM takeDocumented? d else expected head
    | _ => expected head
where
  /-- Takes the item when it tells the expected result. -/
  expected (head : Bytes) : Option Documentation :=
    if head.startsWith "Expects:" then
      (cutItem? "Expects:" item).map fun bs => { d with expects := some (.blocks bs) }
    else some d

/-- A block of the discussion. -/
def discussed : Block (List Inline) → Block (List Inline)
  | .heading level content => .heading (level + 1) content
  | b => b

/-- Takes the blocks of a comment in order. -/
def takeBlocks? (d : Documentation) : Document → Option Documentation
  | [] => some d
  | b :: rest => do
    let discuss := { d with discussion := d.discussion ++ [discussed b] }
    let d ← match b with
      | .paragraph content =>
        some (if d.summary.isNone then { d with summary := some content } else discuss)
      | .list _ items => if rest.isEmpty then items.foldlM takeItem? d else some discuss
      | _ => some discuss
    takeBlocks? d rest

/-- What a comment says, given how its blocks are found. There is no answer when a
name under `Variables:` cannot be cut off its entry. -/
def ofCommentBy? (parse : Bytes → Document) (comment : Bytes) : Option Documentation :=
  takeBlocks? ⟨comment, none, [], [], none⟩ (parse comment)

/-- What a comment in Markdown says. -/
def ofComment? (comment : Bytes) : Option Documentation := ofCommentBy? Markdown.parse comment

end Documentation
end Signum
