import Signum.Analysis.Interpreter
import Signum.Yaml.Reader
/- The manifest of a workspace: its name, the settings of its analyses and of its
   log, and the programs in it.

   A manifest is a YAML document. What it leaves out, or sets to nothing, keeps its
   default; keys without a meaning are passed over. Keys that repeat and values of
   the wrong kind make it malformed. -/
namespace Signum

/-- Settings of the analyses in a workspace. -/
structure AnalysisSettings where
  /-- The most rounds any one loop may take; no limit unless positive. -/
  maxIterations : Int := 0
  /-- Whether a read expression yields a new value each time it is evaluated. -/
  freshReads : Bool := false
  deriving DecidableEq, Repr

/-- Settings of the log. Without a level, warnings are logged. -/
structure LogSettings where
  level : Bytes := []
  development : Bool := false
  deriving DecidableEq, Repr

/-- A program that a manifest lists. -/
structure ProgramListing where
  name : Bytes := []
  source : Bytes := []
  deriving DecidableEq, Repr

/-- A manifest. -/
structure Manifest where
  name : Bytes := []
  analysis : AnalysisSettings := {}
  log : LogSettings := {}
  programs : List ProgramListing := []
  deriving DecidableEq, Repr

/-- The settings as an analysis takes them. -/
def AnalysisSettings.config (s : AnalysisSettings) : Analysis.Config :=
  ⟨s.maxIterations, !s.freshReads⟩

namespace Yaml

/-- The text of a value, whatever it stands for. -/
def Node.text? : Node → Option Bytes
  | .scalar _ text => some text
  | _ => none

/-- A truth value, which may also be a word of consent or refusal. -/
def Node.bool? : Node → Option Bool
  | .scalar quoted text =>
    match meaning quoted text with
    | .bool value => some value
    | .text word =>
      if isOneOf word ["y", "Y", "yes", "Yes", "YES", "on", "On", "ON"] then some true
      else if isOneOf word ["n", "N", "no", "No", "NO", "off", "Off", "OFF"] then some false
      else none
    | _ => none
  | _ => none

/-- The whole part of a number that is not too large for 64 bits; what is too small
becomes the least of them. -/
def wholePart? : Binary64 → Option Int
  | .nan => none
  | .infinite negative => if negative then some (-(Nat.pow 2 63)) else none
  | .finite negative units =>
    let size : Int := (units / Nat.pow 2 Binary64.unitShift : Nat)
    if negative then some (max (-size) (-(Nat.pow 2 63)))
    else if units ≤ Nat.pow 2 63 * Nat.pow 2 Binary64.unitShift then
      some (if size < Nat.pow 2 63 then size else -(Nat.pow 2 63))
    else none

/-- An integer of 64 bits. -/
def Node.int? : Node → Option Int
  | .scalar quoted text =>
    match meaning quoted text with
    | .int value => if value < Nat.pow 2 63 then some value else none
    | .float value => wholePart? value
    | _ => none
  | _ => none

/-- Whether two keys are written with the same text. Keys that are collections are
taken for the same where they are of one kind. -/
def sameKey : Node → Node → Bool
  | .scalar _ a, .scalar _ b => a == b
  | .sequence _, .sequence _ => true
  | .mapping _, .mapping _ => true
  | _, _ => false

/-- Whether no key is like one before it. -/
def distinctKeys : List (Node × Node) → Bool
  | [] => true
  | (key, _) :: rest => rest.all (fun p => !sameKey key p.1) && distinctKeys rest

/-- What the fields of a mapping make of a value, one field after the other. A
field set to nothing is left as it is, and nothing in the place of the mapping
leaves them all; a key that stands for nothing is passed over. -/
def Node.fields? {α : Type} (field? : Bytes → Node → α → Option α) (start : α) : Node → Option α
  | .mapping pairs =>
    if !distinctKeys pairs then none
    else pairs.foldlM (fun value (key, item) =>
      match key with
      | .scalar _ name => if key.isNull || item.isNull then some value else field? name item value
      | _ => none) start
  | node => if node.isNull then some start else none

end Yaml

open Yaml

/-- The settings of the analyses that a value describes. -/
def AnalysisSettings.ofNode? : Yaml.Node → Option AnalysisSettings :=
  Node.fields? (fun key item s =>
    if isOneOf key ["max_iterations"] then item.int?.map fun n => { s with maxIterations := n }
    else if isOneOf key ["fresh_reads"] then item.bool?.map fun b => { s with freshReads := b }
    else some s) {}

/-- The settings of the log that a value describes. -/
def LogSettings.ofNode? : Yaml.Node → Option LogSettings :=
  Node.fields? (fun key item s =>
    if isOneOf key ["level"] then item.text?.map fun t => { s with level := t }
    else if isOneOf key ["development"] then item.bool?.map fun b => { s with development := b }
    else some s) {}

/-- The program that a value lists. -/
def ProgramListing.ofNode? : Yaml.Node → Option ProgramListing :=
  Node.fields? (fun key item s =>
    if isOneOf key ["name"] then item.text?.map fun t => { s with name := t }
    else if isOneOf key ["source"] then item.text?.map fun t => { s with source := t }
    else some s) {}

/-- The programs that a sequence lists; items that are nothing do not count. -/
def ProgramListing.listOfNode? : Yaml.Node → Option (List ProgramListing)
  | .sequence items => (items.filter (!·.isNull)).mapM ProgramListing.ofNode?
  | _ => none

/-- A program goes by its source when it has no name. -/
def ProgramListing.named (p : ProgramListing) : ProgramListing :=
  if p.name.isEmpty then { p with name := p.source } else p

namespace Manifest

/-- The name of the file that holds a manifest. -/
def fileName : Bytes := "signa.yaml"

/-- The manifest that a value describes. -/
def ofNode? : Yaml.Node → Option Manifest :=
  Node.fields? (fun key item m =>
    if isOneOf key ["name"] then item.text?.map fun t => { m with name := t }
    else if isOneOf key ["analysis"] then
      (AnalysisSettings.ofNode? item).map fun s => { m with analysis := s }
    else if isOneOf key ["log"] then (LogSettings.ofNode? item).map fun s => { m with log := s }
    else if isOneOf key ["programs"] then
      (ProgramListing.listOfNode? item).map fun l => { m with programs := l }
    else some m) {}

/-- Why a text is not a manifest. -/
inductive Fault where
  | malformed
  /-- A listed program, counted from zero, says nothing of its source. -/
  | noSource (index : Nat)
  deriving DecidableEq, Repr

/-- A fault in words. -/
def Fault.text : Fault → Bytes
  | .malformed => "failed to parse " ++ fileName ++ ": yaml"
  | .noSource index =>
    "failed to parse " ++ fileName ++ ": program " ++ Bytes.ofNat index ++ " has no source"

/-- The manifest that a text holds. -/
def parse (text : Bytes) : Except Fault Manifest := do
  let manifest ← match Yaml.read? text with
    | none => throw .malformed
    | some none => pure {}
    | some (some node) =>
      match ofNode? node with
      | some m => pure m
      | none => throw .malformed
  match manifest.programs.findIdx? (·.source.isEmpty) with
  | some index => throw (.noSource index)
  | none => pure { manifest with programs := manifest.programs.map ProgramListing.named }

end Manifest
end Signum
