import Signum.Number.Reading
import Signum.Text.Quoted
/- Flags on a command line.

   A flag is a name after one dash or two. Its value follows an equals sign or is
   the next argument; a switch needs none. The flags end at the first argument that
   is no flag, or after two dashes alone. -/
namespace Signum.Command

/-- What values a flag takes. -/
inductive FlagKind where
  | text
  | switch
  | number
  deriving DecidableEq, Repr

/-- A flag, with the names it goes by, of which the first stands for it. -/
structure Flag where
  name : Bytes
  short : List Bytes
  kind : FlagKind
  deriving DecidableEq, Repr

/-- A value given to a flag. -/
inductive FlagValue where
  | text (value : Bytes)
  | switch (value : Bool)
  | number (value : Int)
  deriving DecidableEq, Repr

/-- Why a command line makes no sense. -/
inductive UsageFault where
  | malformed (argument : Bytes)
  | unknown (name : Bytes)
  | noValue (name : Bytes)
  | badSwitch (name value : Bytes)
  | badNumber (name value : Bytes)
  deriving DecidableEq, Repr

/-- A fault in words. -/
def UsageFault.text : UsageFault → Bytes
  | .malformed argument => "bad flag syntax: " ++ argument
  | .unknown name => "flag provided but not defined: -" ++ name
  | .noValue name => "flag needs an argument: -" ++ name
  | .badSwitch name value =>
    "invalid boolean value " ++ value.quoted ++ " for -" ++ name ++ ": parse error"
  | .badNumber name value =>
    "invalid value " ++ value.quoted ++ " for flag -" ++ name ++ ": parse error"

/-- Values given to flags, the last given first. -/
abbrev FlagValues := List (Bytes × FlagValue)

namespace FlagValues

/-- The text last given to a flag. -/
def text? (values : FlagValues) (name : Bytes) : Option Bytes :=
  match values.lookup name with
  | some (.text value) => some value
  | _ => none

/-- The number last given to a flag. -/
def number? (values : FlagValues) (name : Bytes) : Option Int :=
  match values.lookup name with
  | some (.number value) => some value
  | _ => none

/-- Whether a switch is on. -/
def isOn (values : FlagValues) (name : Bytes) : Bool :=
  values.lookup name = some (.switch true)

end FlagValues

/-- A truth value as it is given to a switch. -/
def readSwitch? (text : Bytes) : Option Bool :=
  if (["1", "t", "T", "true", "TRUE", "True"].map Bytes.ofString).contains text then some true
  else if (["0", "f", "F", "false", "FALSE", "False"].map Bytes.ofString).contains text then
    some false
  else none

/-- The name and the value after the dashes of a flag. -/
def splitFlag (text : Bytes) : Bytes × Option Bytes :=
  match Bytes.cut 61 text with
  | some (name, value) => (name, some value)
  | none => (text, none)

/-- The flag of the given name. -/
def findFlag? (flags : List Flag) (name : Bytes) : Option Flag :=
  flags.find? fun f => f.name == name || f.short.contains name

/-- What an argument is: the end of the flags, which may be marked, or a flag, by
what follows its dashes. -/
inductive Argument where
  | plain
  | endMark
  | flag (body : Bytes)

/-- What an argument is. -/
def Argument.of : Bytes → Argument
  | [45, 45] => .endMark
  | 45 :: 45 :: body => .flag body
  | 45 :: b :: body => .flag (b :: body)
  | _ => .plain

/-- A value for a flag. -/
def readValue (flag : Flag) (name value : Bytes) : Except UsageFault FlagValue :=
  match flag.kind with
  | .text => .ok (.text value)
  | .switch => match readSwitch? value with
    | some b => .ok (.switch b)
    | none => .error (.badSwitch name value)
  | .number => match readAnyInt64? value with
    | some n => .ok (.number n.toInt)
    | none => .error (.badNumber name value)

/-- The values given to flags, and the arguments after the flags. -/
def readFlags (flags : List Flag) : (values : FlagValues) → List Bytes →
    Except UsageFault (FlagValues × List Bytes)
  | values, [] => .ok (values, [])
  | values, argument :: rest =>
    match Argument.of argument with
    | .plain => .ok (values, argument :: rest)
    | .endMark => .ok (values, rest)
    | .flag body =>
      if body.isEmpty || body.head? = some 45 || body.head? = some 61 then
        .error (.malformed argument)
      else
        let (name, value) := splitFlag body
        match findFlag? flags name, value, rest with
        | none, _, _ => .error (.unknown name)
        | some flag, some value, rest => do
          readFlags flags ((flag.name, ← readValue flag name value) :: values) rest
        | some flag, none, rest =>
          if flag.kind = .switch then readFlags flags ((flag.name, .switch true) :: values) rest
          else match rest with
            | [] => .error (.noValue name)
            | value :: rest => do
              readFlags flags ((flag.name, ← readValue flag name value) :: values) rest

end Signum.Command
