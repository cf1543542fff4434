/-
# GuestDos.Machine.Difference -- what changed between two memories

* `Memory.changesSince` lists the bytes that differ from an earlier memory as the longest runs of
  neighbouring bytes, in order of address.  A run never goes around the end of memory.

Init only.
-/
import GuestDos.Machine.Memory

namespace GuestDos.Machine

set_option autoImplicit false

/-- Neighbouring bytes from a start index on. -/
structure Run where
  start : Nat
  bytes : List UInt8
deriving DecidableEq, Repr

/-- Puts a byte in front of the runs: it joins the first one if that begins at the next index. -/
def Run.extend (index : Nat) (byte : UInt8) : List Run → List Run
  | [] => [⟨index, [byte]⟩]
  | run :: rest =>
      if run.start = index + 1 then ⟨index, byte :: run.bytes⟩ :: rest
      else ⟨index, [byte]⟩ :: run :: rest

namespace Memory

/-- Runs of the differing bytes below `count`, in front of the runs found above. -/
def changesBelow (m earlier : Memory) : (count : Nat) → count ≤ memorySize → List Run → List Run
  | 0, _, found => found
  | i + 1, bound, found =>
      let byte := m.byteAt ⟨i, bound⟩
      changesBelow m earlier i (Nat.le_of_succ_le bound)
        (if byte = earlier.byteAt ⟨i, bound⟩ then found else Run.extend i byte found)

/-- The bytes that differ from an earlier memory, as the longest runs in order of address. -/
def changesSince (m earlier : Memory) : List Run :=
  changesBelow m earlier memorySize (Nat.le_refl _) []

end Memory

end GuestDos.Machine
