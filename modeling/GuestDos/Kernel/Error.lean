/-
# GuestDos.Kernel.Error -- why the kernel structures could not be brought up

None of these can be recovered from while booting; `KernelError.message` is what is shown.

Init only besides hexadecimal text.
-/
import GuestDos.Text

namespace GuestDos.Kernel

set_option autoImplicit false

/-- A failure while the kernel tables and callbacks are set up. -/
inductive KernelError where
  /-- The private segment has no room for the requested paragraphs. -/
  | outOfTableMemory (requested segment limit : UInt16)
  /-- Every callback number has been handed out. -/
  | noFreeCallbacks
  /-- No routine is installed under this number. -/
  | unknownCallback (number : UInt16)
  /-- This number was never handed out. -/
  | invalidCallback (number : UInt16)
deriving DecidableEq, Repr

namespace KernelError

private def hexWord (w : UInt16) : String :=
  "0x" ++ String.ofList (Text.hex 4 w.toNat)

/-- The text shown for a failure. -/
def message : KernelError → String
  | outOfTableMemory requested segment limit =>
      "DOS: Not enough memory for internal tables (" ++ toString requested.toNat
        ++ " paragraphs at segment " ++ hexWord segment ++ ", limit " ++ hexWord limit ++ ")"
  | noFreeCallbacks => "no free callback slots"
  | unknownCallback number => "callback " ++ toString number.toNat ++ " is not installed"
  | invalidCallback number => "callback " ++ toString number.toNat ++ " is out of range"

end KernelError

end GuestDos.Kernel
