import Qvole.Lib.Outcome
import Qvole.Lib.Table
import Qvole.Lib.Utf8

/-!
# Command-line flags

Port of the flag parser of `main.rs`: `-flag`, `--flag`, `-flag=value`, flags that may be repeated,
and an end at `--` or at the first argument that is not a flag. Arguments are the bytes of their
texts.
-/

namespace Qvole.Cli

open Outcome (fail)

inductive FlagType where
  | bool
  | string
  /-- Repeatable. -/
  | slice
  deriving DecidableEq, Repr

structure FlagSpec where
  name : Bytes
  ty : FlagType
  deriving DecidableEq, Repr

/-- The subcommands with flags of their own; that of `pipe` is called `qvole`. -/
inductive FlagSet where
  | relay
  | qvole
  | exec
  | tunnel
  deriving DecidableEq, Repr

def specsListenFlag : FlagSpec := ⟨ascii "listen", .string⟩
def specsDebugFlag : FlagSpec := ⟨ascii "debug", .bool⟩
def specsCodeFlag : FlagSpec := ⟨ascii "code", .string⟩
def specsRelayFlag : FlagSpec := ⟨ascii "relay", .string⟩
def specsStatsFlag : FlagSpec := ⟨ascii "stats", .bool⟩
def specsCmdFlag : FlagSpec := ⟨ascii "cmd", .string⟩
def specsAFlag : FlagSpec := ⟨ascii "a", .bool⟩
def specsLFlag : FlagSpec := ⟨ascii "L", .slice⟩
def specsRFlag : FlagSpec := ⟨ascii "R", .slice⟩
def specsALFlag : FlagSpec := ⟨ascii "aL", .slice⟩
def specsAFFlag : FlagSpec := ⟨ascii "aF", .slice⟩

def flagSpecsFor : FlagSet → List FlagSpec
  | .relay => [specsListenFlag, specsDebugFlag]
  | .qvole => [specsCodeFlag, specsRelayFlag, specsDebugFlag, specsStatsFlag]
  | .exec => [specsCodeFlag, specsRelayFlag, specsDebugFlag, specsCmdFlag]
  | .tunnel =>
      [specsCodeFlag, specsRelayFlag, specsDebugFlag, specsAFlag, specsLFlag, specsRFlag,
        specsALFlag, specsAFFlag]

/-! ### Values -/

structure FlagValues where
  bools : Table Bytes Bool
  strings : Table Bytes Bytes
  slices : Table Bytes (List Bytes)
  deriving DecidableEq

namespace FlagValues

def empty : FlagValues := ⟨∅, ∅, ∅⟩

def bool (values : FlagValues) (name : Bytes) : Bool := (values.bools.lookup name).getD false

def string (values : FlagValues) (name : Bytes) : Bytes := (values.strings.lookup name).getD []

def slice (values : FlagValues) (name : Bytes) : List Bytes := (values.slices.lookup name).getD []

def setBool (values : FlagValues) (name : Bytes) (v : Bool) : FlagValues :=
  { values with bools := values.bools.insert name v }

def setString (values : FlagValues) (name v : Bytes) : FlagValues :=
  { values with strings := values.strings.insert name v }

def push (values : FlagValues) (name v : Bytes) : FlagValues :=
  { values with slices := values.slices.insert name (values.slice name ++ [v]) }

end FlagValues

/-! ### Parsing -/

inductive FlagsError where
  | help
  | badSyntax (arg : Bytes)
  | notDefined (flag : Bytes)
  | invalidBool (value flag : Bytes)
  | needsArgument (flag : Bytes)
  deriving DecidableEq, Repr

def trueTexts : List Bytes :=
  [ascii "1", ascii "t", ascii "T", ascii "true", ascii "TRUE", ascii "True"]

def falseTexts : List Bytes :=
  [ascii "0", ascii "f", ascii "F", ascii "false", ascii "FALSE", ascii "False"]

def parseBoolValue (s : Bytes) : Option Bool :=
  if s ∈ trueTexts then some true else if s ∈ falseTexts then some false else none

/-- The name of a flag and the value behind a `=`, from the text without the minuses. -/
def splitName (name : Bytes) : Outcome FlagsError (Option (Bytes × Option Bytes)) :=
  match name.findIdx? (· == 61) with
  | some i => do
      let flag ← .expect (name.strSlice 0 i)
      let value ← .expect (name.strSlice (i + 1) name.length)
      return some (flag, some value)
  | none => return some (name, none)

/-- The name of a flag, checked and split. -/
def checkName (s name : Bytes) : Outcome FlagsError (Option (Bytes × Option Bytes)) :=
  if name = [] ∨ name.head? = some 45 ∨ name.head? = some 61 then fail (.badSyntax s)
  else splitName name

/-- The name of a flag and the value behind a `=`; nothing where the flags end. -/
def splitFlag (s : Bytes) : Outcome FlagsError (Option (Bytes × Option Bytes)) := do
  if s.length < 2 ∨ s.head? ≠ some 45 then return none
  let second ← .expect s[1]?
  if second = 45 ∧ s.length = 2 then return none
  let name ← .expect (s.strSlice (if second = 45 then 2 else 1) s.length)
  checkName s name

def findFlag (specs : List FlagSpec) (flag : Bytes) : Outcome FlagsError FlagSpec :=
  match specs.find? (·.name = flag) with
  | some spec => .ok spec
  | none => if flag = ascii "help" ∨ flag = ascii "h" then fail .help else fail (.notDefined flag)

def boolValue (spec : FlagSpec) : Option Bytes → Outcome FlagsError Bool
  | some value =>
      match parseBoolValue value with
      | some v => .ok v
      | none => fail (.invalidBool value spec.name)
  | none => .ok true

/-- Stores the value of a flag that takes one. -/
def store (values : FlagValues) (spec : FlagSpec) (v : Bytes) : Outcome FlagsError FlagValues :=
  match spec.ty with
  | .string => .ok (values.setString spec.name v)
  | .slice => .ok (values.push spec.name v)
  | .bool => .error .panicked

/-- Reads on with the values so far. A flag without `=` that takes a value awaits it, whatever the next
argument looks like. -/
def parseFlagsFrom (specs : List FlagSpec) : (awaiting : Option FlagSpec) → (values : FlagValues) →
    (args : List Bytes) → Outcome FlagsError FlagValues
  | none, values, [] => .ok values
  | some spec, _, [] => fail (.needsArgument spec.name)
  | some spec, values, v :: rest => do
      let values ← store values spec v
      parseFlagsFrom specs none values rest
  | none, values, s :: rest => do
      match ← splitFlag s with
      | none => return values
      | some (flag, inline) =>
          let spec ← findFlag specs flag
          if spec.ty = .bool then
            let v ← boolValue spec inline
            parseFlagsFrom specs none (values.setBool spec.name v) rest
          else
            match inline with
            | some v =>
                let values ← store values spec v
                parseFlagsFrom specs none values rest
            | none => parseFlagsFrom specs (some spec) values rest

def parseFlags (args : List Bytes) (specs : List FlagSpec) : Outcome FlagsError FlagValues :=
  parseFlagsFrom specs none .empty args

end Qvole.Cli
