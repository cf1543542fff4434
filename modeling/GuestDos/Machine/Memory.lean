/-
# GuestDos.Machine.Memory -- the flat address space of the guest

One megabyte and the 64 KiB above it.  A 32 bit address past the end wraps back to zero, and the
address after the last 32 bit address is address zero.

* `Memory.byteAt` is the view of a memory: two memories with the same bytes are equal (`ext_byteAt`).
* `poke` stores one byte (`byteAt_poke`), `writeBlock` and `fill` store many, from low to high
  addresses, so that where a long block meets itself the later byte wins.  `byteAt_writeBlock` is
  the block that does not wrap.
* `peek` and `readBlock` read through the view.

Init only.
-/

namespace GuestDos.Machine

set_option autoImplicit false

/-- The number of bytes: conventional memory and the high memory area just above it. -/
abbrev memorySize : Nat := 0x110000

/-- The bytes of the guest. -/
structure Memory where
  bytes : Vector UInt8 memorySize
deriving DecidableEq

/-- Where a 32 bit address falls in the memory. -/
def wrap (address : UInt32) : Fin memorySize :=
  ⟨address.toNat % memorySize, Nat.mod_lt _ (by decide)⟩

namespace Memory

/-- Every byte is zero. -/
def zero : Memory :=
  ⟨Vector.replicate memorySize 0⟩

instance : Inhabited Memory := ⟨zero⟩

/-- The view of a memory: its byte at each index. -/
def byteAt (m : Memory) (i : Fin memorySize) : UInt8 :=
  m.bytes[i]

/-- The byte at an address. -/
def peek (m : Memory) (address : UInt32) : UInt8 :=
  m.byteAt (wrap address)

/-- Stores one byte. -/
def poke (m : Memory) (address : UInt32) (value : UInt8) : Memory :=
  ⟨m.bytes.set (wrap address) value⟩

/-- The bytes at `count` addresses in a row. -/
def readBlock (m : Memory) (address : UInt32) (count : Nat) : List UInt8 :=
  (List.range count).map fun i => m.peek (address + UInt32.ofNat i)

/-- Stores bytes at addresses in a row. -/
def writeBlock (m : Memory) (address : UInt32) : List UInt8 → Memory
  | [] => m
  | byte :: rest => (m.poke address byte).writeBlock (address + 1) rest

/-- Stores one value at `count` addresses in a row. -/
def fill (m : Memory) (address : UInt32) (value : UInt8) : Nat → Memory
  | 0 => m
  | count + 1 => (m.poke address value).fill (address + 1) value count

/-! ## The view of each operation -/

theorem ext_byteAt {m n : Memory} (same : ∀ i, m.byteAt i = n.byteAt i) : m = n := by
  cases m; cases n
  congr 1
  exact Vector.ext fun i bound => same ⟨i, bound⟩

@[simp] theorem byteAt_zero (i : Fin memorySize) : zero.byteAt i = 0 := by
  simp [zero, byteAt]

theorem byteAt_poke (m : Memory) (address : UInt32) (value : UInt8) (i : Fin memorySize) :
    (m.poke address value).byteAt i = if i = wrap address then value else m.byteAt i := by
  by_cases h : wrap address = i
  · subst h; simp [poke, byteAt]
  · have other : (wrap address : Nat) ≠ i := fun e => h (Fin.ext e)
    simp [poke, byteAt, Vector.getElem_set_ne, other, Ne.symm h]

theorem peek_poke_self (m : Memory) (address : UInt32) (value : UInt8) :
    (m.poke address value).peek address = value := by
  simp [peek, byteAt_poke]

@[simp] theorem length_readBlock (m : Memory) (address : UInt32) (count : Nat) :
    (m.readBlock address count).length = count := by
  simp [readBlock]

/-- A fill is a block of equal bytes. -/
theorem fill_eq_writeBlock (m : Memory) (address : UInt32) (value : UInt8) (count : Nat) :
    m.fill address value count = m.writeBlock address (List.replicate count value) := by
  induction count generalizing m address with
  | zero => rfl
  | succ count ih => simp [fill, writeBlock, List.replicate_succ, ih]

/-- A block leaves every byte alone that none of its addresses wraps to. -/
theorem byteAt_writeBlock_of_forall_ne (m : Memory) (address : UInt32) (bytes : List UInt8)
    (i : Fin memorySize)
    (apart : ∀ k < bytes.length, wrap (address + UInt32.ofNat k) ≠ i) :
    (m.writeBlock address bytes).byteAt i = m.byteAt i := by
  induction bytes generalizing m address with
  | nil => rfl
  | cons byte rest ih =>
    have first := apart 0 (by simp)
    simp only [writeBlock]
    rw [ih, byteAt_poke, if_neg]
    · intro e
      apply first
      rw [e]
      simp
    · intro k bound
      have next := apart (k + 1) (by simpa using bound)
      have shift : address + 1 + UInt32.ofNat k = address + UInt32.ofNat (k + 1) := by
        rw [UInt32.ofNat_add, UInt32.add_assoc, UInt32.add_comm (UInt32.ofNat k)]
        rfl
      rwa [shift]

/-- A block that ends within the memory holds its bytes in order, and nothing else changes. -/
theorem byteAt_writeBlock (m : Memory) (address : UInt32) (bytes : List UInt8)
    (inside : address.toNat + bytes.length ≤ memorySize) (i : Fin memorySize) :
    (m.writeBlock address bytes).byteAt i =
      (if address.toNat ≤ i then bytes[i - address.toNat]? else none).getD (m.byteAt i) := by
  induction bytes generalizing m address with
  | nil => simp [writeBlock]
  | cons byte rest ih =>
    simp only [List.length_cons] at inside
    have small : address.toNat < memorySize := by omega
    have next : (address + 1).toNat = address.toNat + 1 := by
      rw [UInt32.toNat_add]
      have size : memorySize = 0x110000 := rfl
      simp only [UInt32.reduceToNat]
      omega
    have here : (wrap address : Nat) = address.toNat := Nat.mod_eq_of_lt small
    simp only [writeBlock]
    rw [ih _ _ (by omega), byteAt_poke, next]
    by_cases before : address.toNat + 1 ≤ i
    · have later : i ≠ wrap address := by
        intro e
        have := congrArg Fin.val e
        omega
      have shift : (i : Nat) - address.toNat = (i - (address.toNat + 1)) + 1 := by omega
      simp [before, later, shift, Nat.le_of_succ_le before]
    · by_cases same : i = wrap address
      · subst same
        have past : ¬ address.toNat + 1 ≤ address.toNat := by omega
        simp [here, past]
      · have ne : (i : Nat) ≠ address.toNat := by
          intro e
          exact same (Fin.ext (e.trans here.symm))
        have less : ¬ address.toNat ≤ (i : Nat) := by omega
        simp [before, same, less]

end Memory

end GuestDos.Machine
