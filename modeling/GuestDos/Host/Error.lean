/-
# GuestDos.Host.Error -- failures of the host, and what the guest is told of them

* `HostError` -- why a call on the host's directories failed.
* `DosError.ofHost` -- the two error codes that a directory operation reports to the guest: only a
  refused permission is told apart, everything else is a path that was not found.

Init only besides hexadecimal text.
-/
import GuestDos.Text

namespace GuestDos.Host

set_option autoImplicit false

/-- Why a call on the host failed. -/
inductive HostError where
  /-- No entry of that name. -/
  | notFound
  | permissionDenied
  | alreadyExists
  /-- A component that should be a directory is none. -/
  | notADirectory
  /-- A component or the whole path is too long. -/
  | nameTooLong
  /-- Too many links on the way. -/
  | linkLoop
  /-- The path holds a NUL character. -/
  | invalidPath
  | other
deriving DecidableEq, Repr

/-- What a directory operation reports to the guest. -/
inductive DosError where
  | pathNotFound
  | accessDenied
deriving DecidableEq, Repr

namespace DosError

/-- The error that a directory operation reports for a failed host call. -/
def ofHost : HostError → DosError
  | .permissionDenied => accessDenied
  | _ => pathNotFound

/-- The DOS error number. -/
def code : DosError → UInt8
  | pathNotFound => 3
  | accessDenied => 5

private def title : DosError → String
  | pathNotFound => "Path not found"
  | accessDenied => "Access denied"

/-- The text shown for an error, with its number. -/
def message (e : DosError) : String :=
  title e ++ " (0x" ++ String.ofList (Text.hex 2 e.code.toNat) ++ ")"

end DosError

end GuestDos.Host
