/-
# GuestDos.Proofs.Machine.Blocks -- blocks in a memory that wraps twice

The address of a block's byte wraps at 2^32, and then falls into the memory modulo its size.  The
size does not divide 2^32, so the two wraps do not fit together: across the top of the addresses a
block meets itself after 0x10000 bytes, and anywhere else after the size of the memory.

* `blockIndex` -- where the bytes of a block fall; `wrap_add`.
* `Overlaid` -- a memory with a block stored over another one: the last byte that falls on an index
  is there, or the old one.  `overlaid_writeBlock`.
* `readBlock_writeBlock_iff` -- a block is read back exactly if it does not meet itself.
* `apart_iff` -- how long it may be for that.
* `block_access` -- what blocks do to every memory.
-/
import Mathlib.Algebra.GroupWithZero.Nat
import GuestDos.Machine.Memory

namespace GuestDos.Machine.Memory

set_option autoImplicit false

/-- Where the byte at distance `k` of a block falls. -/
def blockIndex (address : UInt32) (k : Nat) : Nat :=
  (address.toNat + k) % 2 ^ 32 % memorySize

theorem wrap_add (address : UInt32) (k : Nat) :
    (wrap (address + UInt32.ofNat k) : Nat) = blockIndex address k := by
  show (address + UInt32.ofNat k).toNat % memorySize = _
  rw [UInt32.toNat_add, UInt32.toNat_ofNat', Nat.add_mod_mod]
  rfl

theorem blockIndex_lt (address : UInt32) (k : Nat) : blockIndex address k < memorySize :=
  Nat.mod_lt _ (by decide)

/-- A block from a byte on, as the rest of it is stored. -/
theorem blockIndex_add (address : UInt32) (i k : Nat) :
    blockIndex (address + UInt32.ofNat i) k = blockIndex address (i + k) := by
  unfold blockIndex
  rw [UInt32.toNat_add, UInt32.toNat_ofNat', Nat.add_mod_mod, Nat.mod_add_mod, Nat.add_assoc]

/-! ## Storing a block -/

/-- The memory `n` is `m` with a block stored over it: an index holds the last byte of the block
that falls on it, or the old byte. -/
structure Overlaid (m : Memory) (address : UInt32) (bytes : List UInt8) (n : Memory) : Prop where
  last : ∀ (i : Fin memorySize) (k : Nat) (bound : k < bytes.length), blockIndex address k = i →
    (∀ later, k < later → later < bytes.length → blockIndex address later ≠ i) →
    n.byteAt i = bytes[k]
  kept : ∀ i : Fin memorySize, (∀ k < bytes.length, blockIndex address k ≠ i) →
    n.byteAt i = m.byteAt i

theorem writeBlock_append (m : Memory) (address : UInt32) (first second : List UInt8) :
    m.writeBlock address (first ++ second) =
      (m.writeBlock address first).writeBlock (address + UInt32.ofNat first.length) second := by
  induction first generalizing m address with
  | nil => simp [writeBlock]
  | cons byte rest ih =>
      have shift : address + 1 + UInt32.ofNat rest.length =
          address + UInt32.ofNat (rest.length + 1) := by
        rw [UInt32.ofNat_add, UInt32.add_assoc, UInt32.add_comm (UInt32.ofNat rest.length)]
        rfl
      simp only [List.cons_append, writeBlock, List.length_cons, ih, shift]

theorem byteAt_writeBlock_kept (m : Memory) (address : UInt32) (bytes : List UInt8)
    (i : Fin memorySize) (apart : ∀ k < bytes.length, blockIndex address k ≠ i) :
    (m.writeBlock address bytes).byteAt i = m.byteAt i := by
  apply byteAt_writeBlock_of_forall_ne
  intro k bound same
  exact apart k bound ((wrap_add address k).symm.trans (congrArg Fin.val same))

/-- A byte stays where nothing after it falls. -/
theorem byteAt_writeBlock_last (m : Memory) (address : UInt32) (early late : List UInt8)
    (byte : UInt8) (i : Fin memorySize) (falls : blockIndex address early.length = i)
    (later : ∀ k < late.length, blockIndex address (early.length + 1 + k) ≠ i) :
    (m.writeBlock address (early ++ byte :: late)).byteAt i = byte := by
  have here : i = wrap (address + UInt32.ofNat early.length) :=
    Fin.ext (falls.symm.trans (wrap_add address early.length).symm)
  have next : address + UInt32.ofNat early.length + 1 =
      address + UInt32.ofNat (early.length + 1) := by
    rw [UInt32.ofNat_add, ← UInt32.add_assoc]
    rfl
  rw [writeBlock_append, writeBlock, next, byteAt_writeBlock_kept, byteAt_poke, if_pos here]
  intro k inLate
  rw [blockIndex_add]
  exact later k inLate

theorem overlaid_writeBlock (m : Memory) (address : UInt32) (bytes : List UInt8) :
    m.Overlaid address bytes (m.writeBlock address bytes) := by
  constructor
  case kept => exact fun i apart => byteAt_writeBlock_kept m address bytes i apart
  case last =>
    intro i k bound falls later
    have split : bytes.take k ++ bytes[k] :: bytes.drop (k + 1) = bytes := by
      rw [← List.drop_eq_getElem_cons bound, List.take_append_drop]
    have taken : (bytes.take k).length = k := List.length_take_of_le (Nat.le_of_lt bound)
    have stored := byteAt_writeBlock_last m address (bytes.take k) (bytes.drop (k + 1)) bytes[k] i
    rw [split, taken, List.length_drop] at stored
    exact stored falls fun distance inRest => later _ (by omega) (by omega)

/-! ## Reading a block back -/

/-- The first `count` bytes of a block at an address fall on different indices. -/
def Apart (address : UInt32) (count : Nat) : Prop :=
  ∀ i j, i < j → j < count → blockIndex address i ≠ blockIndex address j

theorem getElem_readBlock (m : Memory) (address : UInt32) (count k : Nat)
    (bound : k < (m.readBlock address count).length) :
    (m.readBlock address count)[k] =
      m.byteAt ⟨blockIndex address k, blockIndex_lt address k⟩ := by
  simp only [readBlock, List.getElem_map, List.getElem_range, peek]
  congr 1
  exact Fin.ext (wrap_add address k)

theorem readBlock_writeBlock (m : Memory) (address : UInt32) (bytes : List UInt8)
    (apart : Apart address bytes.length) :
    (m.writeBlock address bytes).readBlock address bytes.length = bytes := by
  apply List.ext_getElem (length_readBlock _ _ _)
  intro k inBlock bound
  rw [getElem_readBlock]
  apply (overlaid_writeBlock m address bytes).last _ k bound rfl
  exact fun later after inside same => apart k later after inside same.symm

/-- Blocks of a length are read back exactly if their bytes fall on different indices. -/
theorem readBlock_writeBlock_iff (m : Memory) (address : UInt32) (count : Nat) :
    (∀ bytes : List UInt8, bytes.length = count →
      (m.writeBlock address bytes).readBlock address count = bytes) ↔ Apart address count := by
  constructor
  · intro readBack i j before bound same
    -- A block that differs at two distances is read the same at both.
    have length : ((List.replicate count (0 : UInt8)).set i 1).length = count := by simp
    have read := readBack _ length
    have first := getElem_readBlock
      (m.writeBlock address ((List.replicate count (0 : UInt8)).set i 1)) address count i
      (by rw [length_readBlock]; omega)
    have second := getElem_readBlock
      (m.writeBlock address ((List.replicate count (0 : UInt8)).set i 1)) address count j
      (by rw [length_readBlock]; omega)
    simp only [read, same] at first second
    rw [← second] at first
    simp [Nat.ne_of_lt before] at first
  · rintro apart bytes rfl
    exact readBlock_writeBlock m address bytes apart

/-! ## How long a block may be -/

/-- A block that stays below 2^32 meets itself after the size of the memory, and one that goes on at
address 0 after 0x10000 bytes: 2^32 is 0x10000 more than a multiple of the size. -/
theorem apart_iff (address : UInt32) (count : Nat) :
    Apart address count ↔
      (address.toNat + count ≤ 2 ^ 32 ∧ count ≤ memorySize) ∨
        (2 ^ 32 < address.toNat + count ∧ count ≤ 0x10000) := by
  have small := address.toNat_lt
  unfold Apart blockIndex memorySize
  constructor
  · intro apart
    by_cases stays : address.toNat + count ≤ 2 ^ 32
    · refine .inl ⟨stays, Nat.le_of_not_lt fun long => ?_⟩
      exact apart 0 0x110000 (by decide) long (by omega)
    · refine .inr ⟨Nat.lt_of_not_le stays, Nat.le_of_not_lt fun long => ?_⟩
      -- The two bytes lie on either side of address 0.
      exact apart (2 ^ 32 - address.toNat - 0x10000) (2 ^ 32 - address.toNat - 0x10000 + 0x10000)
        (by omega) (by omega) (by omega)
  · rintro (⟨stays, short⟩ | ⟨goesOn, short⟩) i j before bound same
    · have first : (address.toNat + i) % 2 ^ 32 = address.toNat + i := Nat.mod_eq_of_lt (by omega)
      have second : (address.toNat + j) % 2 ^ 32 = address.toNat + j := Nat.mod_eq_of_lt (by omega)
      rw [first, second] at same
      omega
    · omega

/-- **What blocks do to every memory.**  A stored block overlays the memory, its last byte on an index
counting; a fill is a block of equal bytes; the memory keeps its size and no byte falls outside it;
and blocks of a length are read back exactly if they stay below 2^32 and are no longer than the
memory, or go past it and are no longer than 0x10000. -/
theorem block_access (m : Memory) (address : UInt32) :
    (∀ bytes, m.Overlaid address bytes (m.writeBlock address bytes)) ∧
    (∀ count value, m.fill address value count =
      m.writeBlock address (List.replicate count value)) ∧
    (∀ bytes, (m.writeBlock address bytes).bytes.toArray.size = memorySize ∧
      ∀ k, blockIndex address k < (m.writeBlock address bytes).bytes.toArray.size) ∧
    ∀ count, (∀ bytes : List UInt8, bytes.length = count →
        (m.writeBlock address bytes).readBlock address count = bytes) ↔
      (address.toNat + count ≤ 2 ^ 32 ∧ count ≤ 0x110000) ∨
        (2 ^ 32 < address.toNat + count ∧ count ≤ 0x10000) := by
  refine ⟨overlaid_writeBlock m address, fun count value => fill_eq_writeBlock m address value count,
    fun bytes => ?_, fun count => ?_⟩
  · have size := (m.writeBlock address bytes).bytes.size_toArray
    refine ⟨size, fun k => ?_⟩
    rw [size]
    exact blockIndex_lt address k
  · exact (readBlock_writeBlock_iff m address count).trans (apart_iff address count)

/-- Across the top of the addresses a block meets itself before it is as long as the memory. -/
example : blockIndex 0xffff0000 0x10000 = blockIndex 0xffff0000 0 := by
  decide

end GuestDos.Machine.Memory
