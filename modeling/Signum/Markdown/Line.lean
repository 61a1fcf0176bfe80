import Signum.Markdown.Tag
/- Lines of a document, and the blocks a line can start.

   A line keeps the column it is at, since a tab reaches to the next column that
   is a multiple of four. Recognisers look at what is left of a line after the
   marks of the blocks it is in. -/
namespace Signum.Markdown

/-- What is left of a line, starting at `column`. The line break is part of it. -/
structure Line where
  column : Nat
  text : Bytes
  deriving DecidableEq, Repr

/-- The lines of a text, each with its line break. -/
def splitLines (text : Bytes) : List Bytes :=
  match text with
  | [] => []
  | b :: rest =>
    if b = Bytes.newline then [b] :: splitLines rest
    else match splitLines rest with
      | line :: lines => (b :: line) :: lines
      | [] => [[b]]

/-- The columns taken by the blanks at the start of a text at `column`. -/
def indentWidth (column : Nat) : Bytes → Nat
  | [] => 0
  | b :: rest =>
    if b = 32 then 1 + indentWidth (column + 1) rest
    else if b = 9 then
      let w := 4 - column % 4
      w + indentWidth (column + w) rest
    else 0

namespace Line

/-- The columns taken by the blanks at the start. -/
def indent (l : Line) : Nat := indentWidth l.column l.text

/-- Whether nothing but blanks is left. -/
def blank (l : Line) : Bool := isBlank l.text

/-- Whether the byte is a blank that indents. -/
def isIndent (b : UInt8) : Bool := b = 32 || b = 9

/-- What follows the blanks at the start. -/
def content (l : Line) : Bytes := l.text.dropWhile isIndent

/-- The line without its first `n` columns of blanks, or as many as there are.
What is left of a tab becomes spaces. -/
def skip : Nat → Line → Line
  | 0, l => l
  | n + 1, ⟨column, text⟩ =>
    match text with
    | [] => ⟨column, text⟩
    | b :: rest =>
      let w := 4 - column % 4
      if b = 32 then skip n ⟨column + 1, rest⟩
      else if b = 9 then
        if w ≤ n + 1 then skip (n + 1 - w) ⟨column + w, rest⟩
        else ⟨column + (n + 1), List.replicate (w - (n + 1)) 32 ++ rest⟩
      else ⟨column, text⟩
termination_by n => n
decreasing_by all_goals omega

/-- The line without its first `n` bytes, none of them a tab, after the blanks. -/
def advance (n : Nat) (l : Line) : Line :=
  ⟨l.column + l.indent + n, l.content.drop n⟩

end Line

/-- A heading of one to six number signs: its level and its text, without the
number signs that may close it. -/
def atxHeading? (l : Line) : Option (Nat × Bytes) :=
  let level := (l.content.takeWhile (· == 35)).length
  let rest := l.content.drop level
  if level = 0 ∨ 6 < level then none
  else match rest with
    | [] => some (level, [])
    | b :: _ =>
      if isSpace b then
        let text := trimRight (trimLeft rest)
        let unclosed := Bytes.dropRightWhile (· == 35) text
        let title := match unclosed.getLast? with
          | some c => if isSpace c then unclosed else text
          | none => []
        some (level, trimRight title)
      else none

/-- Whether the line is a rule: three or more of one mark, and blanks. -/
def isRule (l : Line) : Bool :=
  match l.text.filter (!isSpace ·) with
  | m :: rest => (m = 42 || m = 45 || m = 95) && 2 ≤ rest.length && rest.all (· == m)
  | [] => false

/-- The level of the heading that the line underlines. -/
def underline? (l : Line) : Option Nat :=
  match trimRight (l.text.dropWhile (· == 32)) with
  | m :: rest =>
    if rest.all (· == m) then
      if m = 61 then some 1 else if m = 45 then some 2 else none
    else none
  | [] => none

/-- A fence of three or more backticks or tildes: the mark, how many, and the
information after it, in which a backtick fence allows no backtick. -/
def fence? (l : Line) : Option (UInt8 × Nat × Option Bytes) :=
  match l.content with
  | m :: _ =>
    let n := (l.content.takeWhile (· == m)).length
    let info := trimRight (trimLeft (l.content.drop n))
    if (m = 96 ∨ m = 126) ∧ 3 ≤ n ∧ ¬(m = 96 ∧ info.contains 96) then
      some (m, n, if info.isEmpty then none else some info)
    else none
  | [] => none

/-- Whether the line closes a fence of `n` marks. -/
def closesFence (mark : UInt8) (n : Nat) (l : Line) : Bool :=
  let m := (l.content.takeWhile (· == mark)).length
  l.indent < 4 && n ≤ m && isBlank (l.content.drop m)

/-- What follows the mark of a quote and one column of blanks. -/
def quoted? (l : Line) : Option Line :=
  match l.content with
  | 62 :: _ => if l.indent < 4 then some ((l.advance 1).skip 1) else none
  | _ => none

/-- The mark of a list item. -/
structure Marker where
  /-- The bullet, or the character after the number. -/
  mark : UInt8
  /-- The number of an ordered item. -/
  number : Option Nat
  /-- The columns from the start of the line to the text of the item. -/
  offset : Nat
  /-- What follows the mark and the blanks after it; nothing when that is blank. -/
  rest : Option Line
  deriving DecidableEq, Repr

/-- An item whose mark takes `width` bytes. Its text starts after one to four
columns of blanks, or after one when there are more or none. -/
def markerAt? (l : Line) (mark : UInt8) (number : Option Nat) (width : Nat) : Option Marker :=
  let after := l.advance width
  let here := l.indent + width
  if after.blank then some ⟨mark, number, here + 1, none⟩
  else
    let gap := after.indent
    if gap = 0 then none
    else
      let gap := if 4 < gap then 1 else gap
      some ⟨mark, number, here + gap, some (after.skip gap)⟩

/-- The mark of a list item at the start of a line: a bullet, or a number of up
to nine digits with a full stop or a parenthesis. -/
def marker? (l : Line) : Option Marker :=
  if 3 < l.indent then none
  else match l.content with
    | [] => none
    | b :: _ =>
      if b = 45 || b = 42 || b = 43 then markerAt? l b none 1
      else
        let digits := l.content.takeWhile Bytes.isDigit
        match l.content.drop digits.length with
        | m :: _ =>
          if (m = 46 || m = 41) && !digits.isEmpty && digits.length ≤ 9 then
            markerAt? l m (some (Bytes.toNat digits)) (digits.length + 1)
          else none
        | [] => none

/-- The kinds of blocks of raw markup, by what ends them. -/
inductive MarkupKind where
  /-- Ends with a closing tag of one of the elements with literal content. -/
  | literal
  /-- Ends with the given text. -/
  | until (part : Bytes)
  /-- Ends before a blank line. -/
  | untilBlank
  deriving DecidableEq, Repr

/-- The elements with literal content. -/
def literalTags : List Bytes := ["script", "pre", "style", "textarea"]

/-- The elements whose tags start a block even inside a line of other text. -/
def blockTags : List Bytes :=
  List.map Bytes.ofString
    ["address", "article", "aside", "base", "basefont", "blockquote", "body", "caption", "center",
      "col", "colgroup", "dd", "details", "dialog", "dir", "div", "dl", "dt", "fieldset",
      "figcaption", "figure", "footer", "form", "frame", "frameset", "h1", "h2", "h3", "h4", "h5",
      "h6", "head", "header", "hr", "html", "iframe", "legend", "li", "link", "main", "menu",
      "menuitem", "meta", "nav", "noframes", "ol", "optgroup", "option", "p", "param", "section",
      "source", "summary", "table", "tbody", "td", "tfoot", "th", "thead", "title", "tr", "track",
      "ul"]

/-- Whether a tag of literal content or of a block can go on so after its name. -/
def endsTagName (space : UInt8 → Bool) (rest : Bytes) : Bool :=
  match rest with
  | [] => true
  | 47 :: 62 :: _ => true
  | b :: _ => b = 62 || b = 10 || b = 13 || space b

/-- Whether the line is one complete tag after its angle bracket. A closing tag
has no attributes. -/
def isLoneTag (text : Bytes) : Bool :=
  let rest? := match text with
    | 47 :: name => Tag.close? name
    | _ => Tag.open? text
  match rest? with
  | some rest => isBlank rest
  | none => false

/-- The block of raw markup that a line starts. A lone tag of any other element
starts one too, but cannot interrupt a paragraph. -/
def markupBlock? (interrupts : Bool) (l : Line) : Option MarkupKind :=
  match l.content with
  | 60 :: text =>
    if Bytes.startsWith text "!--" then some (.until "-->")
    else if Bytes.startsWith text "?" then some (.until "?>")
    else if Bytes.startsWith text "![CDATA[" then some (.until "]]>")
    else match text with
      | 33 :: b :: _ => if 65 ≤ b && b ≤ 90 then some (.until ">") else none
      | _ =>
        let closing := text.head? = some 47
        match Tag.name? (if closing then text.drop 1 else text) with
        | none => none
        | some (name, rest) =>
          let tag : Bytes := name.map Bytes.toLower
          if !closing && literalTags.contains tag && endsTagName isSpace rest then some .literal
          else if blockTags.contains tag && (endsTagName (· == 32) rest || isLoneTag text) then
            some .untilBlank
          else if !interrupts && isLoneTag text && !literalTags.contains tag then some .untilBlank
          else none
  | _ => none

/-- Whether the line has what ends a block of raw markup. -/
def MarkupKind.ends (line : Bytes) : MarkupKind → Bool
  | .literal =>
    literalTags.any fun tag => Bytes.hasInfix (line.map Bytes.toLower) ("</" ++ tag ++ ">")
  | .until part => Bytes.hasInfix line part
  | .untilBlank => isBlank line

end Signum.Markdown
