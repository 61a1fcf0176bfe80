import Signum.Markdown.Character
import Signum.Markdown.Tree
import Signum.Text.Quoted
/- Markdown written as HTML.

   The four characters with a meaning in HTML are escaped, raw markup is left
   out, and a mention of a variable becomes a link when the resolver knows a
   destination for it. Writing can fail: a resolver may refuse a name, and there
   are six levels of headings. -/
namespace Signum.Markdown

/-- A byte of text in HTML. -/
def escapeByte (b : UInt8) : Bytes :=
  if b = 34 then "&quot;" else if b = 38 then "&amp;" else if b = 60 then "&lt;"
  else if b = 62 then "&gt;" else [b]

/-- Text in HTML. -/
def escapeText (text : Bytes) : Bytes := text.flatMap escapeByte

/-- A character of markdown text in HTML. The null character is written as the
replacement character. -/
def Character.html : Character → Bytes
  | .byte b => if b = 0 then CodePoint.encode CodePoint.replacement else escapeByte b
  | .reference value => escapeText value

/-- Markdown text in HTML, its escapes and references resolved. -/
def textHtml (raw : Bytes) : Bytes := (characters raw).flatMap Character.html

/-- The byte as `%` and two upper-case hexadecimal digits. -/
def percent (b : UInt8) : Bytes :=
  37 :: (Bytes.hex 2 b.toNat).map fun d => if 97 ≤ d then d - 32 else d

/-- Whether the byte stands for itself in a destination. -/
def keptInUrl (b : UInt8) : Bool :=
  Bytes.isAlphaNum b || (Bytes.ofString "!#$&'()*+,-./:;=?@_~").contains b

/-- A byte of a character that does not stand for itself in a destination. -/
def queryByte (b : UInt8) : Bytes :=
  if Bytes.isAlphaNum b || (Bytes.ofString "-_.~").contains b then [b]
  else if b = 32 then "+" else percent b

/-- How many bytes the encoding that starts with the byte takes; none for a byte
that starts no encoding. -/
def encodingWidth? (b : UInt8) : Option Nat :=
  if b < 0x80 then some 1 else if b < 0xC0 then none else if b < 0xE0 then some 2
  else if b < 0xF0 then some 3 else if b < 0xF8 then some 4 else none

/-- A destination with the characters that cannot stand in one percent-encoded.
A percent sign before a hexadecimal digit and a further byte is an encoding
already. `total` is the length of the whole destination. -/
def encodeUrl (total : Nat) (text : Bytes) : Bytes :=
  match text with
  | [] => []
  | b :: rest =>
    if keptInUrl b then b :: encodeUrl total rest
    else if b = 37 ∧ 2 ≤ rest.length ∧ Bytes.isHexDigit (rest.headD 0) then
      b :: rest.take 2 ++ encodeUrl total (rest.drop 2)
    else if b = 32 then "%20" ++ encodeUrl total rest
    else match encodingWidth? b with
      | none => b :: encodeUrl total rest
      | some w =>
        if total < w ∧ total = 1 then [b]
        else
          let width := if total < w then total - 1 else w
          if rest.length + 1 < width then encodeUrl total rest
          else (b :: rest.take (width - 1)).flatMap queryByte
            ++ encodeUrl total (rest.drop (width - 1))
termination_by text.length
decreasing_by all_goals simp only [List.length_drop, List.length_cons]; omega

/-- A destination as it was written, ready to stand in HTML but for the
characters with a meaning there. -/
def urlHtml (written : Bytes) : Bytes :=
  let plain := resolve named? (resolve numeric? (unescape written))
  encodeUrl plain.length plain

/-- Whether following the destination may run code or read local files. Images
given as data are harmless. -/
def isDangerous (destination : Bytes) : Bool :=
  let lower : Bytes := destination.map Bytes.toLower
  match Bytes.dropPrefix? lower "data:image/" with
  | some kind => !(["png;", "gif;", "jpeg;", "webp;"].any (Bytes.startsWith kind ·))
  | none => ["javascript:", "vbscript:", "file:", "data:"].any (Bytes.startsWith lower ·)

/-- The destination of a link or an image in HTML. -/
def Target.destinationHtml (t : Target) : Bytes :=
  if isDangerous t.destination then [] else escapeText (urlHtml t.destination)

/-- The title of a link or an image in HTML. -/
def Target.titleHtml (t : Target) : Bytes :=
  match t.title with
  | some title => " title=\"" ++ textHtml title ++ "\""
  | none => []

/-- The end of a run of text in HTML. -/
def LineEnd.html : LineEnd → Bytes
  | .none => []
  | .soft => "\n"
  | .hard => "<br>\n"

/-- Finds the destination of a mentioned variable. An empty destination is an
unknown variable; a failure is the reason for refusing the name. -/
abbrev Resolver := Bytes → Except Bytes Bytes

/-- Knows no variable. -/
def Resolver.unknown : Resolver := fun _ => .ok []

/-- Why a document could not be written. -/
inductive HtmlFault where
  /-- A heading below the sixth level. -/
  | tooDeep
  /-- A mention that the resolver refused. -/
  | refused (name reason : Bytes)
  deriving DecidableEq, Repr

/-- What is said of the fault; nothing of a heading that is too deep. -/
def HtmlFault.message? : HtmlFault → Option Bytes
  | .tooDeep => none
  | .refused name reason => some ("resolve variable " ++ name.quoted ++ ": " ++ reason)

/-- A mentioned variable in HTML. -/
def mentionHtml (resolver : Resolver) (name : Bytes) : Except HtmlFault Bytes :=
  match resolver name with
  | .error reason => .error (.refused name reason)
  | .ok [] => .ok ("<span class=\"unknown-var\">" ++ textHtml name ++ "</span>")
  | .ok destination =>
    .ok ("<a class=\"var-link\" href=\"" ++ urlHtml destination ++ "\">" ++ textHtml name
      ++ "</a>")

/-- Lines of code in HTML, each line break of a code span being a space. -/
def codeHtml (raw : Bytes) : Bytes :=
  "<code>" ++ escapeText (raw.map fun b => if b = Bytes.newline then 32 else b) ++ "</code>"

/-- An address between angle brackets in HTML. -/
def addressHtml (email : Bool) (raw : Bytes) : Bytes :=
  let mail : Bytes :=
    if email && !Bytes.startsWith (raw.map Bytes.toLower) "mailto:" then "mailto:" else []
  "<a href=\"" ++ mail ++ escapeText (encodeUrl raw.length raw) ++ "\">" ++ escapeText raw ++ "</a>"

mutual

/-- An inline in HTML. -/
def Inline.html (resolver : Resolver) : Inline → Except HtmlFault Bytes
  | .text raw ending => .ok (textHtml raw ++ ending.html)
  | .code raw => .ok (codeHtml raw)
  | .emphasis strong content => do
    let tag : Bytes := if strong then "strong" else "em"
    let inside ← Inline.htmlAll resolver content
    return "<" ++ tag ++ ">" ++ inside ++ "</" ++ tag ++ ">"
  | .link target content => do
    let inside ← Inline.htmlAll resolver content
    return "<a href=\"" ++ target.destinationHtml ++ "\"" ++ target.titleHtml ++ ">" ++ inside
      ++ "</a>"
  | .image target content =>
    .ok ("<img src=\"" ++ target.destinationHtml ++ "\" alt=\""
      ++ escapeText (Inline.writtenAll content) ++ "\"" ++ target.titleHtml ++ ">")
  | .address email raw => .ok (addressHtml email raw)
  | .markup => .ok "<!-- raw HTML omitted -->"
  | .mention name => mentionHtml resolver name

/-- A sequence of inlines in HTML. -/
def Inline.htmlAll (resolver : Resolver) : List Inline → Except HtmlFault Bytes
  | [] => .ok []
  | i :: rest => do
    let first ← Inline.html resolver i
    let others ← Inline.htmlAll resolver rest
    return first ++ others

end

/-- A list item starts a line of its own unless it starts with plain text. -/
def startsPlain : List (Block (List Inline)) → Bool
  | [] | .plain _ :: _ => true
  | _ => false

/-- The language of a fenced block: the information up to its first space. -/
def languageHtml : Option Bytes → Bytes
  | none => []
  | some info => " class=\"language-" ++ textHtml (info.takeWhile (· != 32)) ++ "\""

mutual

/-- A block in HTML; `last` when no block follows it in the same place. -/
def Block.html (resolver : Resolver) (last : Bool) :
    Block (List Inline) → Except HtmlFault Bytes
  | .paragraph content => do
    let inside ← Inline.htmlAll resolver content
    return "<p>" ++ inside ++ "</p>\n"
  | .plain content => do
    let inside ← Inline.htmlAll resolver content
    return inside ++ (if last || content.isEmpty then [] else "\n")
  | .heading level content =>
    if 6 < level then .error .tooDeep
    else do
      let tag : Bytes := "h" ++ Bytes.ofNat level
      let inside ← Inline.htmlAll resolver content
      return "<" ++ tag ++ ">" ++ inside ++ "</" ++ tag ++ ">\n"
  | .quote blocks => do
    let inside ← Block.htmlAll resolver blocks
    return "<blockquote>\n" ++ inside ++ "</blockquote>\n"
  | .list start items => do
    let inside ← Block.htmlItems resolver items
    let (opening, tag) : Bytes × Bytes := match start with
      | none => ("ul", "ul")
      | some 1 => ("ol", "ol")
      | some n => ("ol start=\"" ++ Bytes.ofNat n ++ "\"", "ol")
    return "<" ++ opening ++ ">\n" ++ inside ++ "</" ++ tag ++ ">\n"
  | .fenced info text =>
    .ok ("<pre><code" ++ languageHtml info ++ ">" ++ escapeText text ++ "</code></pre>\n")
  | .indented text => .ok ("<pre><code>" ++ escapeText text ++ "</code></pre>\n")
  | .rule => .ok "<hr>\n"
  | .markup closed =>
    .ok (Bytes.times "<!-- raw HTML omitted -->\n" (if closed then 2 else 1))

/-- A sequence of blocks in HTML. -/
def Block.htmlAll (resolver : Resolver) : List (Block (List Inline)) → Except HtmlFault Bytes
  | [] => .ok []
  | b :: rest => do
    let first ← Block.html resolver rest.isEmpty b
    let others ← Block.htmlAll resolver rest
    return first ++ others

/-- A sequence of list items in HTML. -/
def Block.htmlItems (resolver : Resolver) :
    List (List (Block (List Inline))) → Except HtmlFault Bytes
  | [] => .ok []
  | item :: rest => do
    let inside ← Block.htmlAll resolver item
    let others ← Block.htmlItems resolver rest
    let gap : Bytes := if startsPlain item then [] else "\n"
    return "<li>" ++ gap ++ inside ++ "</li>\n" ++ others

end

end Signum.Markdown
