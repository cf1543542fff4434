/-
# GuestDos.CommandLine.Arguments -- reading the command line

A command line is `[-v] COMMAND ...`.  Options have the form `--name`, `--name=value` or
`--name value`, each at most once; `--` ends them.  A value that is given apart may not look like an
option.  Whatever does not fit is a usage error, which is `none`.

* `scan` sorts the arguments after the command into flags, settings and operands.
* `Invocation.parse` -- the command with its typed arguments.

Init only.
-/
import GuestDos.Kernel.Model
import GuestDos.Text

namespace GuestDos.CommandLine

set_option autoImplicit false

open GuestDos.Kernel (MachineModel)

/-- What is to be done. -/
inductive Command where
  /-- Lists a host directory the way the guest sees it. -/
  | directory (path : Text) (codePage : Option UInt16) (hostShortNames : Bool)
  /-- Builds the kernel tables and prints where they were placed. -/
  | tables (model : MachineModel) (codePage : Option UInt16) (setAx : Bool)
  /-- Prints the location of the configuration file. -/
  | configLocation
deriving DecidableEq, Repr

/-- A command line that could be read. -/
structure Invocation where
  verbose : Bool
  command : Command
deriving DecidableEq, Repr

/-- The options that a command knows, without the dashes. -/
structure OptionNames where
  flags : List String
  settings : List String

/-- The arguments of a command, sorted. -/
structure Given where
  flags : List String
  settings : List (String × String)
  operands : List String
deriving DecidableEq, Repr

namespace Given

/-- No argument. -/
def empty : Given := ⟨[], [], []⟩

/-- Adds a flag that is known and was not given before. -/
def addFlag (given : Given) (known : OptionNames) (name : String) : Option Given :=
  if known.flags.contains name && !given.flags.contains name then
    some { given with flags := name :: given.flags }
  else none

/-- Adds a setting that is known and was not given before. -/
def addSetting (given : Given) (known : OptionNames) (name value : String) : Option Given :=
  if known.settings.contains name && (given.settings.lookup name).isNone then
    some { given with settings := (name, value) :: given.settings }
  else none

end Given

/-- Whether an argument is an option rather than a value; a single dash is a value. -/
def looksLikeOption (argument : String) : Bool :=
  match argument.toList with
  | '-' :: _ :: _ => true
  | _ => false

/-- The name and the value of a long option; the value stands after the first equals sign. -/
def splitLongOption? (argument : String) : Option (String × Option String) :=
  match argument.toList with
  | '-' :: '-' :: body =>
      let name := String.ofList (body.takeWhile (· != '='))
      match body.dropWhile (· != '=') with
      | [] => some (name, none)
      | _ :: value => some (name, some (String.ofList value))
  | _ => none

/-- Sorts the arguments of a command. -/
def scan (known : OptionNames) (given : Given) : List String → Option Given
  | [] => some given
  | "--" :: rest => some { given with operands := given.operands ++ rest }
  | argument :: rest =>
      if looksLikeOption argument then
        match splitLongOption? argument with
        | some (name, some value) =>
            (given.addSetting known name value).bind fun given => scan known given rest
        | some (name, none) =>
            if known.settings.contains name then
              match rest with
              | value :: rest =>
                  if looksLikeOption value then none
                  else (given.addSetting known name value).bind fun given => scan known given rest
              | [] => none
            else
              (given.addFlag known name).bind fun given => scan known given rest
        | none =>
            if argument == "-v" then
              (given.addFlag known "verbose").bind fun given => scan known given rest
            else none
      else
        scan known { given with operands := given.operands ++ [argument] } rest

/-- Decimal digits as a number. -/
def decimal? (digits : Text) : Option Nat :=
  if digits.isEmpty || !digits.all Char.isDigit then none
  else some (Nat.ofDigitChars 10 digits 0)

/-- A decimal number from 0 to 65535.  A sign may stand before it, but no number below zero. -/
def codePage? (text : String) : Option UInt16 :=
  let inRange (n : Nat) : Option UInt16 := if n < 65536 then some (UInt16.ofNat n) else none
  match text.toList with
  | '+' :: digits => (decimal? digits).bind inRange
  | '-' :: digits => (decimal? digits).bind fun n => if n = 0 then some 0 else none
  | digits => (decimal? digits).bind inRange

namespace Given

/-- The code page setting: not given, or one that can be read. -/
def codePage (given : Given) : Option (Option UInt16) :=
  match given.settings.lookup "codepage" with
  | none => some none
  | some text => (codePage? text).map some

/-- The model setting, an IBM machine if it is not given. -/
def model (given : Given) : Option MachineModel :=
  match given.settings.lookup "machine" with
  | none => some .ibm
  | some name => MachineModel.ofName? name

end Given

/-- The command of some arguments, and the flag for more output if it stands after the command. -/
def Command.parse : List String → Option (Bool × Command)
  | "dir" :: rest => do
      let given ← scan ⟨["verbose", "host-short-names"], ["codepage"]⟩ .empty rest
      let codePage ← given.codePage
      match given.operands with
      | [path] =>
          if path.isEmpty then none
          else some (given.flags.contains "verbose",
            .directory path.toList codePage (given.flags.contains "host-short-names"))
      | _ => none
  | "tables" :: rest => do
      let given ← scan ⟨["verbose", "set-ax"], ["machine", "codepage"]⟩ .empty rest
      let codePage ← given.codePage
      let model ← given.model
      if given.operands.isEmpty then
        some (given.flags.contains "verbose",
          .tables model codePage (given.flags.contains "set-ax"))
      else none
  | "config-location" :: rest => do
      let given ← scan ⟨["verbose"], []⟩ .empty rest
      if given.operands.isEmpty then some (given.flags.contains "verbose", .configLocation)
      else none
  | _ => none

/-- Reads a command line; `none` is a usage error. -/
def Invocation.parse : List String → Option Invocation
  | "-v" :: rest | "--verbose" :: rest => (Command.parse rest).map fun found => ⟨true, found.2⟩
  | arguments => (Command.parse arguments).map fun found => ⟨found.1, found.2⟩

end GuestDos.CommandLine
