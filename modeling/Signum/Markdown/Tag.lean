import Signum.Markdown.Character
/- Raw markup and addresses in angle brackets.

   Each recogniser reads from the start of a text and gives what is left after
   the piece it recognises. -/
namespace Signum.Markdown

/-- What follows the first occurrence of `part`. -/
def after? (part : Bytes) : Bytes → Option Bytes
  | [] => if part.isEmpty then some [] else none
  | b :: rest =>
    match Bytes.dropPrefix? (b :: rest) part with
    | some left => some left
    | none => after? part rest

namespace Tag

/-- Whether the byte is a blank inside a tag. -/
def isGap (b : UInt8) : Bool := b = 32 || b = 9 || b = 10 || b = 13

/-- Whether a tag's name can go on with the byte. -/
def isNamePart (b : UInt8) : Bool := Bytes.isAlphaNum b || b = 45

/-- The name of a tag, which starts with a letter. -/
def name? (text : Bytes) : Option (Bytes × Bytes) :=
  match text with
  | b :: _ =>
    if Bytes.isAlpha b then some (text.takeWhile isNamePart, text.dropWhile isNamePart) else none
  | [] => none

/-- Whether an attribute's name can start with the byte. -/
def startsAttribute (b : UInt8) : Bool := Bytes.isAlpha b || b = 95 || b = 58

/-- Whether an attribute's name can go on with the byte. -/
def isAttributePart (b : UInt8) : Bool :=
  Bytes.isAlphaNum b || b = 58 || b = 46 || b = 95 || b = 45

/-- Whether the byte can stand in a value without quotes. -/
def isBareValue (b : UInt8) : Bool :=
  32 < b && !(b = 34 || b = 39 || b = 61 || b = 60 || b = 62 || b = 96)

/-- An attribute's value: quoted, or bare and not empty. -/
def value? (text : Bytes) : Option Bytes :=
  match text with
  | 34 :: rest => (Bytes.cut 34 rest).map Prod.snd
  | 39 :: rest => (Bytes.cut 39 rest).map Prod.snd
  | b :: rest => if isBareValue b then some (rest.dropWhile isBareValue) else none
  | [] => none

/-- An attribute after at least one blank, with or without a value. -/
def attribute? (text : Bytes) : Option Bytes :=
  let start := text.dropWhile isGap
  match start with
  | b :: _ =>
    if start.length < text.length && startsAttribute b then
      let rest := start.dropWhile isAttributePart
      match rest.dropWhile isGap with
      | 61 :: value => some ((value? (value.dropWhile isGap)).getD rest)
      | _ => some rest
    else none
  | [] => none

/-- Drops as many attributes as there are. -/
def dropAttributes (text : Bytes) : Bytes :=
  match attribute? text with
  | some rest => if rest.length < text.length then dropAttributes rest else text
  | none => text
termination_by text.length

/-- The rest of an opening tag after its name. -/
def openEnd? (text : Bytes) : Option Bytes :=
  match (dropAttributes text).dropWhile isGap with
  | 62 :: rest => some rest
  | 47 :: 62 :: rest => some rest
  | _ => none

/-- An opening tag after its angle bracket. -/
def open? (text : Bytes) : Option Bytes := (name? text).bind fun (_, rest) => openEnd? rest

/-- A closing tag after its angle bracket and slash. -/
def close? (text : Bytes) : Option Bytes :=
  (name? text).bind fun (_, rest) =>
    match rest.dropWhile isGap with
    | 62 :: left => some left
    | _ => none

/-- A comment after its opening: it starts with neither `>` nor `->`, and its
first two dashes end it. -/
def comment? (text : Bytes) : Option Bytes :=
  if Bytes.startsWith text ">" || Bytes.startsWith text "->" then none
  else match after? "--" text with
    | some (62 :: rest) => some rest
    | _ => none

/-- A piece of raw markup after its angle bracket. -/
def markup? (text : Bytes) : Option Bytes :=
  match text with
  | 47 :: rest => close? rest
  | 63 :: rest => after? "?>" rest
  | 33 :: 45 :: 45 :: rest => comment? rest
  | 33 :: rest =>
    match Bytes.dropPrefix? rest "[CDATA[" with
    | some data => after? "]]>" data
    | none => if 65 ≤ rest.headD 0 && rest.headD 0 ≤ 90 then after? ">" rest else none
  | _ => open? text

end Tag

namespace Address

/-- Whether the byte can stand in a scheme after its first letter. -/
def isSchemePart (b : UInt8) : Bool := Bytes.isAlphaNum b || b = 43 || b = 45 || b = 46

/-- Whether the byte can stand in a location. -/
def isLocationPart (b : UInt8) : Bool := 32 < b && b != 60 && b != 62 && b != 127

/-- The length of a location at the start of a text: a scheme of two to 33
characters, a colon, and what follows without blanks. -/
def location? (text : Bytes) : Option Nat :=
  let scheme := text.takeWhile isSchemePart
  if Bytes.isAlpha (scheme.headD 0) && 2 ≤ scheme.length && scheme.length ≤ 33
      && text[scheme.length]? == some 58 then
    some (scheme.length + 1 + ((text.drop (scheme.length + 1)).takeWhile isLocationPart).length)
  else none

/-- Whether the byte can stand before the `@` of a mail address. -/
def isMailboxPart (b : UInt8) : Bool :=
  Bytes.isAlphaNum b || (Bytes.ofString ".!#$%&'*+/=?^_`\x7b|\x7d~-").contains b

/-- A label of a domain: at most 63 letters, digits and inner dashes. -/
def isLabel (label : Bytes) : Bool :=
  label.length ≤ 63 && label.all (fun b => Bytes.isAlphaNum b || b = 45)
    && Bytes.isAlphaNum (label.headD 0) && Bytes.isAlphaNum (label.getLastD 0)

/-- The length of a mail address at the start of a text, up to an angle bracket. -/
def mail? (text : Bytes) : Option Nat :=
  let mailbox := text.takeWhile isMailboxPart
  match text.drop mailbox.length with
  | 64 :: rest =>
    let domain := rest.takeWhile (· != 62)
    if !mailbox.isEmpty && ((Bytes.splitOn 46 domain).all isLabel) then
      some (mailbox.length + 1 + domain.length)
    else none
  | _ => none

/-- An address after its angle bracket: whether it is a mail address, the
address, and what is left after the closing bracket. -/
def address? (text : Bytes) : Option (Bool × Bytes × Bytes) :=
  let read (email : Bool) (n : Nat) : Option (Bool × Bytes × Bytes) :=
    match text.drop n with
    | 62 :: rest => some (email, text.take n, rest)
    | _ => none
  match mail? text with
  | some n => read true n
  | none => (location? text).bind (read false)

end Address
end Signum.Markdown
