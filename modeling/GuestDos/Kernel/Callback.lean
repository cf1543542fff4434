/-
# GuestDos.Kernel.Callback -- native routines behind stubs in guest memory

A stub is five bytes in the BIOS segment: an instruction on which the processor traps, the number
of the callback, and a far return.  A table keeps a flag for each number, which says that it was
handed out, and hands out the first number whose flag is not set.  A routine can be installed under
a number that was handed out, and replaces the one installed before.

* `CallbackTable.allocate`, `install`, `name?`, `dispatch` -- the operations.
* `entry`, `stub` -- where a stub is and what its bytes are.
* `nextFree`, `Taken` -- the first free number, and the flags that decide it.
* `installNext` -- the table once a number was handed out and used (`install_next`), and the routine
  answers under it (`dispatch_installNext`).

Init only.
-/
import GuestDos.Machine.Access
import GuestDos.Kernel.Error

namespace GuestDos.Kernel

set_option autoImplicit false

open GuestDos.Machine (FarPointer Memory LittleEndian.encode memorySize)

/-- What the processor does after a routine has run. -/
inductive Signal where
  | resume
  | stop
deriving DecidableEq, Repr

/-- A native routine that works on guest memory. -/
abbrev Handler := Memory → Signal × Memory

/-- An installed routine. -/
structure Routine where
  name : String
  handler : Handler

/-- The number of stubs that have room in the BIOS segment. -/
abbrev callbackSlots : Nat := 128

/-- Which numbers were handed out, and the routines installed under them. -/
structure CallbackTable where
  allocated : Vector Bool callbackSlots
  routines : Vector (Option Routine) callbackSlots
  /-- Number 0 counts as handed out from the start, so that a zeroed stub does not look valid. -/
  zero_taken : allocated[0] = true

namespace CallbackTable

/-- No number but 0 handed out, nothing installed. -/
def empty : CallbackTable where
  allocated := (Vector.replicate callbackSlots false).set 0 true
  routines := Vector.replicate callbackSlots none
  zero_taken := Vector.getElem_set_self (by decide)

/-- The first number that was not handed out; one past the last if there is none. -/
def nextFree (t : CallbackTable) : Nat :=
  t.allocated.toList.findIdx fun used => !used

/-- The table once a number was handed out. -/
def handOut (t : CallbackTable) (number : Nat) (bound : number < callbackSlots) :
    CallbackTable where
  allocated := t.allocated.set number true
  routines := t.routines
  zero_taken := by
    rw [Vector.getElem_set]
    split
    · rfl
    · exact t.zero_taken

/-- Hands out the first number that was not handed out yet. -/
def allocate (t : CallbackTable) : Except KernelError (UInt16 × CallbackTable) :=
  if free : t.nextFree < callbackSlots then
    .ok (UInt16.ofNat t.nextFree, t.handOut t.nextFree free)
  else
    .error .noFreeCallbacks

/-- Where the stub of a number is; numbers past the table wrap within the segment. -/
def entry (number : UInt16) : FarPointer :=
  ⟨0xf000, 0x1000 + number * 32⟩

/-- The bytes of a stub: a group 4 opcode with an otherwise invalid operand, the number, and a far
return. -/
def stub (number : UInt16) : List UInt8 :=
  [0xfe, 0x38] ++ LittleEndian.encode 2 number.toNat ++ [0xcb]

/-- The routine installed under a number. -/
def routine? (t : CallbackTable) (number : UInt16) : Option Routine :=
  if h : number.toNat < callbackSlots then t.routines[number.toNat] else none

/-- A number of the table that was handed out. -/
def Taken (t : CallbackTable) (number : Nat) : Prop :=
  ∃ bound : number < callbackSlots, t.allocated[number] = true

instance (t : CallbackTable) (number : Nat) : Decidable (t.Taken number) :=
  inferInstanceAs (Decidable (∃ bound : number < callbackSlots, t.allocated[number] = true))

/-- Installs a routine under a number that was handed out and writes its stub. -/
def install (t : CallbackTable) (number : UInt16) (routine : Routine) (m : Memory) :
    Except KernelError (FarPointer × CallbackTable × Memory) :=
  if h : number ≠ 0 ∧ t.Taken number.toNat then
    .ok (entry number,
      { t with routines := t.routines.set number.toNat (some routine) h.2.1 },
      m.writeBlock (entry number).physical (stub number))
  else
    .error (.invalidCallback number)

/-- The name under which a routine is installed. -/
def name? (t : CallbackTable) (number : UInt16) : Option String :=
  (t.routine? number).map (·.name)

/-- Runs the routine installed under a number. -/
def dispatch (t : CallbackTable) (number : UInt16) (m : Memory) :
    Except KernelError (Signal × Memory) :=
  match t.routine? number with
  | some routine => .ok (routine.handler m)
  | none => .error (.unknownCallback number)

/-! ## Stubs -/

theorem length_stub (number : UInt16) : (stub number).length = 5 :=
  rfl

/-- A stub ends within the memory, whatever its number. -/
theorem stub_inside (number : UInt16) :
    (entry number).physical.toNat + (stub number).length ≤ memorySize := by
  have reach := (entry number).physical_lt
  rw [length_stub]
  unfold memorySize
  omega

/-! ## The first free number -/

section Free

variable {t : CallbackTable} {number : Nat}

theorem taken_zero (t : CallbackTable) : t.Taken 0 :=
  ⟨by decide, t.zero_taken⟩

theorem taken_handOut (bound : number < callbackSlots) (other : Nat) :
    (t.handOut number bound).Taken other ↔ other = number ∨ t.Taken other := by
  unfold Taken handOut
  constructor
  · rintro ⟨small, used⟩
    rw [Vector.getElem_set] at used
    split at used
    · rename_i same
      exact .inl same.symm
    · exact .inr ⟨small, used⟩
  · rintro (rfl | ⟨small, used⟩)
    · exact ⟨bound, Vector.getElem_set_self bound⟩
    · refine ⟨small, ?_⟩
      rw [Vector.getElem_set]
      split
      · rfl
      · exact used

/-- Every number before the first free one was handed out. -/
theorem taken_of_lt_nextFree (before : number < t.nextFree) : t.Taken number := by
  have length : t.allocated.toList.length = callbackSlots := Vector.length_toList
  have small : number < callbackSlots :=
    Nat.lt_of_lt_of_le before (length ▸ List.findIdx_le_length)
  have used := List.not_of_lt_findIdx before
  rw [Vector.getElem_toList, Bool.not_eq_false'] at used
  exact ⟨small, used⟩

theorem not_taken_nextFree (t : CallbackTable) : ¬ t.Taken t.nextFree := by
  rintro ⟨small, used⟩
  have inList : t.nextFree < t.allocated.toList.length := Vector.length_toList.symm ▸ small
  have unused : (!t.allocated.toList[t.nextFree]) = true := List.findIdx_getElem
  rw [Vector.getElem_toList, used] at unused
  cases unused

/-- The first free number is the one that is not handed out with all before it handed out. -/
theorem nextFree_eq (before : ∀ other < number, t.Taken other) (free : ¬ t.Taken number) :
    t.nextFree = number := by
  rcases Nat.lt_trichotomy t.nextFree number with less | same | greater
  · exact absurd (before _ less) t.not_taken_nextFree
  · exact same
  · exact absurd (taken_of_lt_nextFree greater) free

theorem nextFree_pos (t : CallbackTable) : 0 < t.nextFree := by
  apply Nat.pos_of_ne_zero
  intro zero
  exact t.not_taken_nextFree (zero ▸ t.taken_zero)

/-- A number of the table is left exactly if the first free one is a number of the table. -/
theorem nextFree_lt_iff :
    t.nextFree < callbackSlots ↔ ∃ number < callbackSlots, ¬ t.Taken number := by
  constructor
  · exact fun free => ⟨t.nextFree, free, t.not_taken_nextFree⟩
  · rintro ⟨number, small, free⟩
    apply Nat.lt_of_le_of_lt _ small
    exact Nat.le_of_not_lt fun before => free (taken_of_lt_nextFree before)

end Free

/-! ## Handing out the next number -/

theorem allocate_of_free {t : CallbackTable} (free : t.nextFree < callbackSlots) :
    t.allocate = .ok (UInt16.ofNat t.nextFree, t.handOut t.nextFree free) :=
  dif_pos free

theorem allocate_of_full {t : CallbackTable} (full : ¬ t.nextFree < callbackSlots) :
    t.allocate = .error .noFreeCallbacks :=
  dif_neg full

/-- A number of the table is not cut off. -/
theorem toNat_number {number : Nat} (bound : number < callbackSlots) :
    (UInt16.ofNat number).toNat = number := by
  apply UInt16.toNat_ofNat_of_lt'
  unfold callbackSlots at bound
  simp only [UInt16.size]
  omega

/-- Where the stub of a number of the table is. -/
theorem toNat_offset_entry {number : Nat} (bound : number < callbackSlots) :
    (entry (UInt16.ofNat number)).offset.toNat = 0x1000 + 32 * number := by
  have exact_number := toNat_number bound
  unfold callbackSlots at bound
  unfold entry
  simp only [UInt16.toNat_add, UInt16.toNat_mul, UInt16.reduceToNat, exact_number]
  omega

/-- The table after the next number was handed out and a routine installed under it. -/
def installNext (t : CallbackTable) (routine : Routine) (free : t.nextFree < callbackSlots) :
    CallbackTable :=
  { t.handOut t.nextFree free with routines := t.routines.set t.nextFree (some routine) free }

/-- Installing under a number that was just handed out succeeds. -/
theorem install_next {t : CallbackTable} (routine : Routine) (m : Memory)
    (free : t.nextFree < callbackSlots) :
    (t.handOut t.nextFree free).install (UInt16.ofNat t.nextFree) routine m =
      .ok (entry (UInt16.ofNat t.nextFree), t.installNext routine free,
        m.writeBlock (entry (UInt16.ofNat t.nextFree)).physical
          (stub (UInt16.ofNat t.nextFree))) := by
  have number := toNat_number free
  have usable : UInt16.ofNat t.nextFree ≠ 0 ∧
      (t.handOut t.nextFree free).Taken (UInt16.ofNat t.nextFree).toNat := by
    refine ⟨fun zero => ?_, ?_⟩
    · have positive := t.nextFree_pos
      rw [← number, zero] at positive
      exact absurd positive (by decide)
    · rw [number, taken_handOut]
      exact .inl rfl
  unfold install installNext
  rw [dif_pos usable]
  simp only [number]
  rfl

theorem dispatch_installNext {t : CallbackTable} (routine : Routine)
    (free : t.nextFree < callbackSlots) (m : Memory) :
    (t.installNext routine free).dispatch (UInt16.ofNat t.nextFree) m =
      .ok (routine.handler m) := by
  have installed : (t.installNext routine free).routine? (UInt16.ofNat t.nextFree) =
      some routine := by
    unfold routine? installNext
    simp only [toNat_number free]
    rw [dif_pos free]
    exact Vector.getElem_set_self _
  unfold dispatch
  rw [installed]

theorem taken_installNext {t : CallbackTable} (routine : Routine)
    (free : t.nextFree < callbackSlots) : (t.installNext routine free).Taken t.nextFree :=
  (taken_handOut free t.nextFree).2 (.inl rfl)

end CallbackTable

end GuestDos.Kernel
