import Signum.Text.CodePoint
import Signum.Yaml.Node
/- Reading a YAML document.

   The reader knows block and flow collections, plain and quoted scalars,
   comments and the marks between documents, of which it reads the first. Block
   collections are told apart by the column they start in. Where a text is not a
   document there is no answer. -/
namespace Signum.Yaml

/-- A place in a text: what follows it, and its column. -/
structure Cursor where
  text : Bytes
  column : Nat
  deriving Repr

namespace Cursor

/-- The column after some text that starts in `column`. -/
def columnAfter (column : Nat) (text : Bytes) : Nat :=
  text.foldl (fun c b => if b = Bytes.newline then 0 else c + 1) column

/-- The place where only `rest` follows, which ends what follows here. -/
def goTo (c : Cursor) (rest : Bytes) : Cursor :=
  ⟨rest, columnAfter c.column (c.text.take (c.text.length - rest.length))⟩

/-- Whether nothing follows. -/
def atEnd (c : Cursor) : Bool := c.text.isEmpty

end Cursor

/-- Whether the byte is a blank inside a line. -/
def isBlank (b : UInt8) : Bool := b = 32 || b = 9

/-- Whether a blank, the end of a line or the end of the text comes next. -/
def blankNext : Bytes → Bool
  | [] => true
  | b :: _ => isBlank b || b = Bytes.newline

/-- Whether the byte has a meaning inside flow collections. -/
def isFlowMark (b : UInt8) : Bool := b = 44 || b = 91 || b = 93 || b = 123 || b = 125

/-- Skips blanks, comments and the ends of lines, and tells whether a line ended.
Tabs are skipped where `tabs` allows it, and at the start of a line in flow
collections only. -/
def gap? (flow tabs crossed : Bool) (c : Cursor) : Option (Cursor × Bool) :=
  match c with
  | ⟨[], column⟩ => some (⟨[], column⟩, crossed)
  | ⟨b :: rest, column⟩ =>
    if b = 32 then gap? flow tabs crossed ⟨rest, column + 1⟩
    else if b = 9 then if tabs then gap? flow tabs crossed ⟨rest, column + 1⟩ else none
    else if b = 35 then
      let left := rest.dropWhile (· != Bytes.newline)
      gap? flow tabs crossed ⟨left, column + (rest.length - left.length) + 1⟩
    else if b = Bytes.newline then gap? flow flow true ⟨rest, 0⟩
    else some (⟨b :: rest, column⟩, crossed)
termination_by c.text.length
decreasing_by
  all_goals simp only [List.length_cons]
  · omega
  · omega
  · exact Nat.lt_succ_of_le (List.dropWhile_sublist _).length_le
  · omega

/-- Whether a mark between documents stands at the place. -/
def atMark (c : Cursor) : Bool :=
  c.column = 0 && ["---", "..."].any fun m =>
    match Bytes.dropPrefix? c.text m with
    | some rest => blankNext rest
    | none => false

/-- The part of a plain scalar on one line, and what follows. It ends before a
colon or a comment that is set apart by blanks, and in flow collections before
their marks. -/
def plainLine (flow afterBlank : Bool) : Bytes → Bytes × Bytes
  | [] => ([], [])
  | b :: rest =>
    let colon := b = 58 && (blankNext rest || (flow && isFlowMark (rest.headD 0)))
    if b = Bytes.newline || colon || (b = 35 && afterBlank) || (flow && isFlowMark b) then
      ([], b :: rest)
    else
      let (text, left) := plainLine flow (isBlank b) rest
      (b :: text, left)

/-- Skips blanks and line ends: how many lines ended, the column, and what
follows. -/
def nextLine (ended column : Nat) : Bytes → Nat × Nat × Bytes
  | [] => (ended, column, [])
  | b :: rest =>
    if b = Bytes.newline then nextLine (ended + 1) 0 rest
    else if isBlank b then nextLine ended (column + 1) rest
    else (ended, column, b :: rest)

/-- What the ends of `n` lines inside a scalar stand for. -/
def fold (n : Nat) : Bytes := if n = 1 then [32] else List.replicate (n - 1) Bytes.newline

/-- Text without blanks at its end. -/
def trimEnd (text : Bytes) : Bytes := text.dropRightWhile isBlank

/-- The further lines of a plain scalar, which are indented to column `indent` at
least: their text, what follows, and whether there were any. -/
def plainLines (flow : Bool) (indent : Nat) (text : Bytes) : Bytes × Bytes × Bool :=
  let (ended, column, next) := nextLine 0 0 text
  let stops := ended = 0 || next.isEmpty || (!flow && column < indent) || next.head? = some 35
    || atMark ⟨next, column⟩
  if stops then ([], text, false)
  else
    let (line, left) := plainLine flow true next
    if line.isEmpty then ([], text, false)
    else if left.length < text.length then
      let (more, left, _) := plainLines flow indent left
      (fold ended ++ trimEnd line ++ more, left, true)
    else ([], text, false)
termination_by text.length

/-- A plain scalar: its text, what follows, and whether it is on one line. -/
def plain? (flow : Bool) (indent : Nat) (text : Bytes) : Option (Bytes × Bytes × Bool) :=
  match text with
  | [] => none
  | b :: rest =>
    let indicator := (Bytes.ofString ",[]\x7b\x7d#&*!|>'\"%@`").contains b
    let bare := (b = 45 || b = 63 || b = 58) &&
      (blankNext rest || (flow && isFlowMark (rest.headD 0)))
    if indicator || bare then none
    else
      let (line, left) := plainLine flow false text
      if line.isEmpty then none
      else
        let (more, left, several) := plainLines flow indent left
        some (trimEnd line ++ more, left, !several)

/-- Skips the end of a line inside quotes: what it stands for, and what follows. -/
def quotedFold (text : Bytes) : Bytes × Bytes :=
  let (ended, _, rest) := nextLine 0 0 text
  (fold ended, rest)

/-- A scalar in single quotes after the opening one; a quote is written twice. -/
def single? (taken : Bytes) (text : Bytes) : Option (Bytes × Bytes) :=
  match text with
  | [] => none
  | [b] => if b = 39 then some (taken.reverse, []) else none
  | b :: c :: rest =>
    if b = 39 then if c = 39 then single? (39 :: taken) rest else some (taken.reverse, c :: rest)
    else if b = Bytes.newline then
      let (value, left) := quotedFold (b :: c :: rest)
      if left.length < (b :: c :: rest).length then
        single? (value.reverse ++ taken.dropWhile isBlank) left
      else none
    else single? (b :: taken) (c :: rest)
termination_by text.length
decreasing_by all_goals simp_all +arith

/-- What a letter after a backslash stands for. -/
def escape? (b : UInt8) : Option CodePoint :=
  match b.toNat with
  | 48 => some 0
  | 97 => some 7
  | 98 => some 8
  | 116 | 9 => some 9
  | 110 => some 10
  | 118 => some 11
  | 102 => some 12
  | 114 => some 13
  | 101 => some 27
  | 32 => some 32
  | 34 => some 34
  | 39 => some 39
  | 47 => some 47
  | 92 => some 92
  | 78 => some 0x85
  | 95 => some 0xA0
  | 76 => some 0x2028
  | 80 => some 0x2029
  | _ => none

/-- How many hexadecimal digits follow a letter after a backslash. -/
def escapeDigits? (b : UInt8) : Option Nat :=
  if b = 120 then some 2 else if b = 117 then some 4 else if b = 85 then some 8 else none

/-- The escape after a backslash: what it stands for, and what follows. At the end
of a line it joins the lines. -/
def escaped? (text : Bytes) : Option (Bytes × Bytes) :=
  match text with
  | [] => none
  | b :: rest =>
    if b = Bytes.newline then some ([], (nextLine 0 0 rest).2.2)
    else match escapeDigits? b with
      | some n =>
        let digits := rest.take n
        let c := Bytes.hexToNat digits
        if digits.length = n && digits.all Bytes.isHexDigit
            && !((0xD800 ≤ c && c ≤ 0xDFFF) || 0x10FFFF < c) then
          some (CodePoint.encode c, rest.drop n)
        else none
      | none => (escape? b).map fun c => (CodePoint.encode c, rest)

/-- A scalar in double quotes after the opening one. -/
def double? (taken : Bytes) (text : Bytes) : Option (Bytes × Bytes) :=
  match text with
  | [] => none
  | b :: rest =>
    if b = 34 then some (taken.reverse, rest)
    else if b = 92 then
      match escaped? rest with
      | some (value, left) =>
        if left.length < rest.length then double? (value.reverse ++ taken) left else none
      | none => none
    else if b = Bytes.newline then
      let (value, left) := quotedFold (b :: rest)
      if left.length ≤ rest.length then double? (value.reverse ++ taken.dropWhile isBlank) left
      else none
    else double? (b :: taken) rest
termination_by text.length
decreasing_by all_goals simp_all +arith <;> omega

/-- A scalar: its value, the place after it, and whether it is on one line. Plain
scalars go on in lines indented to `indent`. -/
def scalar? (flow : Bool) (indent : Nat) (c : Cursor) : Option (Node × Cursor × Bool) :=
  let oneLine (left : Bytes) : Bool :=
    !(c.text.take (c.text.length - left.length)).contains Bytes.newline
  match c.text with
  | 34 :: rest =>
    (double? [] rest).map fun (text, left) => (.scalar true text, c.goTo left, oneLine left)
  | 39 :: rest =>
    (single? [] rest).map fun (text, left) => (.scalar true text, c.goTo left, oneLine left)
  | text =>
    (plain? flow indent text).map fun (value, left, single) =>
      (.scalar false value, c.goTo left, single)

/-- The place after the colon of a pair, when one comes next on the line. In flow
collections a colon after a quoted key or a collection needs no blank. -/
def colon? (flow : Bool) (c : Cursor) : Option Cursor :=
  match c.text.dropWhile isBlank with
  | 58 :: rest => if flow || blankNext rest then some (c.goTo rest) else none
  | _ => none

/-- Whether an item of a block sequence starts at the place. -/
def atItem (c : Cursor) : Bool :=
  match c.text with
  | 45 :: rest => blankNext rest
  | _ => false

/-- Whether the line ends at the place, but for a comment. -/
def lineEnds (c : Cursor) : Bool :=
  match c.text.dropWhile isBlank with
  | [] => true
  | b :: _ => b = Bytes.newline || b = 35

mutual

/-- A value in a flow collection. -/
def flowNode? : (fuel : Nat) → Cursor → Option (Node × Cursor)
  | 0, _ => none
  | fuel + 1, c =>
    match c.text with
    | 91 :: rest => (flowItems? fuel [] (c.goTo rest)).map fun (items, c) => (.sequence items, c)
    | 123 :: rest => (flowPairs? fuel [] (c.goTo rest)).map fun (pairs, c) => (.mapping pairs, c)
    | _ => (scalar? true 0 c).map fun (n, c, _) => (n, c)

/-- The value after the colon of a pair in a flow collection. -/
def flowValue? : (fuel : Nat) → Cursor → Option (Node × Cursor)
  | 0, _ => none
  | fuel + 1, c => do
    let (c, _) ← gap? true true false c
    match c.text with
    | b :: _ => if b = 44 || b = 93 || b = 125 then some (.absent, c) else flowNode? fuel c
    | [] => none

/-- The items of a flow sequence, the last first in `taken`. A pair without
braces is a mapping of its own. -/
def flowItems? : (fuel : Nat) → (taken : List Node) → Cursor → Option (List Node × Cursor)
  | 0, _, _ => none
  | fuel + 1, taken, c => do
    let (c, _) ← gap? true true false c
    match c.text with
    | 93 :: rest => some (taken.reverse, c.goTo rest)
    | _ =>
      let (key, c) ← flowNode? fuel c
      let (c, _) ← gap? true true false c
      let (item, c) ← match colon? true c with
        | some after => (flowValue? fuel after).map fun (value, c) => (.mapping [(key, value)], c)
        | none => some (key, c)
      let (c, _) ← gap? true true false c
      match c.text with
      | 44 :: rest => flowItems? fuel (item :: taken) (c.goTo rest)
      | 93 :: rest => some ((item :: taken).reverse, c.goTo rest)
      | _ => none

/-- The pairs of a flow mapping, the last first in `taken`. -/
def flowPairs? : (fuel : Nat) → (taken : List (Node × Node)) → Cursor →
    Option (List (Node × Node) × Cursor)
  | 0, _, _ => none
  | fuel + 1, taken, c => do
    let (c, _) ← gap? true true false c
    match c.text with
    | 125 :: rest => some (taken.reverse, c.goTo rest)
    | _ =>
      let (key, c) ← flowNode? fuel c
      let (c, _) ← gap? true true false c
      let (value, c) ← match colon? true c with
        | some after => flowValue? fuel after
        | none => some (.absent, c)
      let (c, _) ← gap? true true false c
      match c.text with
      | 44 :: rest => flowPairs? fuel ((key, value) :: taken) (c.goTo rest)
      | 125 :: rest => some (((key, value) :: taken).reverse, c.goTo rest)
      | _ => none

end

mutual

/-- A value inside a block that is indented by less than `indent`. Where `opens`
does not hold, it is not a block collection. -/
def blockNode? : (fuel : Nat) → (indent : Nat) → (opens : Bool) → Cursor → Option (Node × Cursor)
  | 0, _, _, _ => none
  | fuel + 1, indent, opens, c =>
    if atItem c then if opens then blockItems? fuel c.column [] c else none
    else
      let value? := match c.text with
        | 91 :: _ | 123 :: _ => (flowNode? fuel c).map fun (n, after) => (n, after, false)
        | _ => scalar? false indent c
      match value? with
      | none => none
      | some (value, after, single) =>
        if (colon? false after).isSome then
          if opens && single then blockPairs? fuel c.column [] c else none
        else if lineEnds after then some (value, after)
        else none

/-- The items of a block sequence in `column`, the last first in `taken`. -/
def blockItems? : (fuel : Nat) → (column : Nat) → (taken : List Node) → Cursor →
    Option (Node × Cursor)
  | 0, _, _, _ => none
  | fuel + 1, column, taken, c => do
    let (inside, crossed) ← gap? false false false ⟨c.text.drop 1, c.column + 1⟩
    let (item, after) ←
      if inside.atEnd || atMark inside || (crossed && inside.column ≤ column) then
        some (Node.absent, inside)
      else blockNode? fuel (column + 1) true inside
    let (next, _) ← gap? false true false after
    let items := item :: taken
    if next.atEnd || atMark next || next.column < column then some (.sequence items.reverse, next)
    else if next.column = column then
      if atItem next then blockItems? fuel column items next
      else some (.sequence items.reverse, next)
    else none

/-- The pairs of a block mapping in `column`, the last first in `taken`. A
sequence that is a value may start in the column of its key. -/
def blockPairs? : (fuel : Nat) → (column : Nat) → (taken : List (Node × Node)) → Cursor →
    Option (Node × Cursor)
  | 0, _, _, _ => none
  | fuel + 1, column, taken, c => do
    let (key, afterKey, single) ← scalar? false (column + 1) c
    let afterColon ← if single then colon? false afterKey else none
    let (inside, crossed) ← gap? false true false afterColon
    let (value, after) ←
      if inside.atEnd || atMark inside then some (Node.absent, inside)
      else if !crossed then blockNode? fuel (column + 1) false inside
      else if column < inside.column then blockNode? fuel (column + 1) true inside
      else if inside.column = column && atItem inside then blockItems? fuel column [] inside
      else some (Node.absent, inside)
    let (next, _) ← gap? false true false after
    let pairs := (key, value) :: taken
    if next.atEnd || atMark next || next.column < column then some (.mapping pairs.reverse, next)
    else if next.column = column && !atItem next then blockPairs? fuel column pairs next
    else none

end

/-- Text whose lines all end with a line feed alone. -/
def withLineFeeds : Bytes → Bytes
  | 13 :: 10 :: rest => 10 :: withLineFeeds rest
  | b :: rest => (if b = 13 then 10 else b) :: withLineFeeds rest
  | [] => []

/-- Whether a document may hold the code point. -/
def isAllowed (c : CodePoint) : Bool :=
  c = 9 || c = 10 || c = 13 || (32 ≤ c && c ≤ 126) || c = 0x85
    || (0xA0 ≤ c && c ≤ 0xFFFD) || 0x10000 ≤ c

/-- The first document of a text; nothing when the text holds no value. -/
def read? (text : Bytes) : Option (Option Node) :=
  let text := Bytes.trimPrefix text [0xEF, 0xBB, 0xBF]
  if !CodePoint.wellFormed text || (CodePoint.split text).any (!isAllowed ·.1) then none
  else do
    let text := withLineFeeds text
    let (start, _) ← gap? false false true ⟨text, 0⟩
    let marked := atMark start && Bytes.startsWith start.text "---"
    let (inside, crossed) ←
      if marked then gap? false true false ⟨start.text.drop 3, 3⟩ else some (start, true)
    if inside.atEnd || atMark inside then some (if marked then some Node.absent else none)
    else
      let (node, after) ← blockNode? (2 * text.length + 4) 0 crossed inside
      let (rest, _) ← gap? false true false after
      if rest.atEnd || atMark rest then some (some node) else none

end Signum.Yaml
