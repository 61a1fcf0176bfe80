import Signum.Markdown.Character
import Signum.Markdown.Tree
/- Destinations and titles of links, and links defined by a label.

   A target stands in parentheses after a link's text, or in a definition
   `[label]: destination "title"` at the start of a paragraph. -/
namespace Signum.Markdown

/-- A destination in angle brackets, after the opening one and on one line. -/
def angled? : Bytes → Option (Bytes × Bytes)
  | [] => none
  | [b] => if b = 62 then some ([], []) else none
  | b :: c :: rest =>
    if b = 92 ∧ Bytes.isPunct c then (angled? rest).map fun (d, left) => (b :: c :: d, left)
    else if b = 62 then some ([], c :: rest)
    else if b = Bytes.newline then none
    else (angled? (c :: rest)).map fun (d, left) => (b :: d, left)

/-- A destination without brackets: up to a blank, or to a closing parenthesis
that matches none of the `opened` ones. -/
def bare (opened : Nat) : Bytes → Bytes × Bytes
  | [] => ([], [])
  | [b] => if isSpace b || (b = 41 && opened = 0) then ([], [b]) else ([b], [])
  | b :: c :: rest =>
    if b = 92 ∧ Bytes.isPunct c then
      let (d, left) := bare opened rest
      (b :: c :: d, left)
    else if isSpace b || (b = 41 && opened = 0) then ([], b :: c :: rest)
    else
      let (d, left) := bare (if b = 40 then opened + 1 else if b = 41 then opened - 1 else opened)
        (c :: rest)
      (b :: d, left)

/-- The destination at the start of a text, and what follows. -/
def destination? (text : Bytes) : Option (Bytes × Bytes) :=
  match text with
  | 60 :: rest => angled? rest
  | _ =>
    let (d, left) := bare 0 text
    if d.isEmpty then none else some (d, left)

/-- Text up to an unescaped `closer`. Another unescaped `opener` before it is not
allowed. -/
def enclosed? (opener closer : UInt8) : Bytes → Option (Bytes × Bytes)
  | [] => none
  | [b] => if b = closer then some ([], []) else none
  | b :: c :: rest =>
    if b = 92 ∧ Bytes.isPunct c then
      (enclosed? opener closer rest).map fun (t, left) => (b :: c :: t, left)
    else if b = closer then some ([], c :: rest)
    else if b = opener then none
    else (enclosed? opener closer (c :: rest)).map fun (t, left) => (b :: t, left)

/-- The title at the start of a text, between quotes or parentheses, and what
follows. -/
def title? (text : Bytes) : Option (Bytes × Bytes) :=
  match text with
  | 34 :: rest => enclosed? 34 34 rest
  | 39 :: rest => enclosed? 39 39 rest
  | 40 :: rest => enclosed? 40 41 rest
  | _ => none

/-- The target after the opening parenthesis that follows a link's text, and
what follows the closing one. -/
def inlineTarget? (text : Bytes) : Option (Target × Bytes) :=
  match trimLeft text with
  | 41 :: rest => some (⟨[], none⟩, rest)
  | start => do
    let (destination, rest) ← destination? start
    match trimLeft rest with
    | 41 :: left => some (⟨destination, none⟩, left)
    | other =>
      let (title, rest) ← title? other
      match trimLeft rest with
      | 41 :: left => some (⟨destination, some title⟩, left)
      | _ => none

/-- Labels are compared without regard to ASCII case and to the blanks they are
written with. -/
def normalLabel (label : Bytes) : Bytes :=
  let squeezed := label.foldr (fun b acc =>
    if isSpace b then (if acc.head? = some 32 then acc else 32 :: acc)
    else Bytes.toLower b :: acc) []
  trimRight (trimLeft squeezed)

/-- The links defined by a label. -/
abbrev Definitions := List (Bytes × Target)

/-- The target defined for a label; the first definition counts. -/
def Definitions.find? (definitions : Definitions) (label : Bytes) : Option Target :=
  (definitions.lookup (normalLabel label))

/-- What follows the first line of a text. -/
def nextLines (text : Bytes) : Bytes := (text.dropWhile (· != Bytes.newline)).drop 1

/-- Whether the first line of a text is blank. -/
def blankLine (text : Bytes) : Bool := isBlank (text.takeWhile (· != Bytes.newline))

/-- The definition at the start of a text, and the lines after it. A title that
is followed by more on its line is not part of the definition. -/
def definition? (text : Bytes) : Option ((Bytes × Target) × Bytes) :=
  match trimLeft text with
  | 91 :: start => do
    let (label, rest) ← enclosed? 91 93 start
    match rest with
    | 58 :: rest =>
      if isBlank label then none
      else
        let (destination, rest) ← destination? (trimLeft rest)
        let short : Option ((Bytes × Target) × Bytes) :=
          if blankLine rest then some ((normalLabel label, ⟨destination, none⟩), nextLines rest)
          else none
        let start := trimLeft rest
        match title? start with
        | some (title, left) =>
          if start.length < rest.length && blankLine left then
            some ((normalLabel label, ⟨destination, some title⟩), nextLines left)
          else short
        | none => short
    | _ => none
  | _ => none

/-- Takes the definitions from the start of a paragraph. -/
def takeDefinitions (text : Bytes) : Definitions × Bytes :=
  match definition? text with
  | some (d, rest) =>
    if rest.length < text.length then
      let (ds, left) := takeDefinitions rest
      (d :: ds, left)
    else ([], text)
  | none => ([], text)
termination_by text.length

end Signum.Markdown
