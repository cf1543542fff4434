/-
# GuestDos.Proofs.Machine.Accesses -- reading through far pointers after writing through them

Thousands of far pointers name the same byte, and a byte, a word and a double word that start at
different ones may overlap in part.  All of it comes down to single bytes: a value that is read has
the bytes of memory from its far pointer on, lowest first (`digit_load`), and a value that is written
puts its bytes there and leaves all others alone (`byteAt_store`).

* `LittleEndian.digit` -- the byte of a number at a place; `getElem?_encode`, `digit_decode`.
* `Width`, `Memory.load`, `Memory.store` -- an access of any width through a far pointer.
* `load_congr` -- what a reading depends on.
* `load_store_same`, `load_store_apart` -- what is read where it was written, and away from it.
* `words_writePointer` -- the two words of a far pointer in memory.
* `load_store` -- every reading after every writing.
-/
import GuestDos.Proofs.Machine.Blocks
import GuestDos.Proofs.Machine.Holding

namespace GuestDos.Machine

set_option autoImplicit false

/-! ## The bytes of a number -/

namespace LittleEndian

/-- The byte of a number at a place, the lowest at place 0. -/
def digit (n k : Nat) : UInt8 :=
  UInt8.ofNat (n / 256 ^ k)

/-- The byte at a place is one place lower in the rest of the number. -/
theorem div_pow_succ (n k : Nat) : n / 256 / 256 ^ k = n / 256 ^ (k + 1) := by
  rw [Nat.div_div_eq_div_mul, Nat.pow_succ, Nat.mul_comm]

theorem getElem?_encode {w k : Nat} (n : Nat) (bound : k < w) :
    (encode w n)[k]? = some (digit n k) := by
  induction w generalizing n k with
  | zero => exact absurd bound (Nat.not_lt_zero k)
  | succ w ih =>
      cases k with
      | zero => simp [encode, digit]
      | succ k =>
          simp [encode, ih (n / 256) (Nat.lt_of_succ_lt_succ bound), digit, div_pow_succ]

theorem digit_decode {bytes : List UInt8} {k : Nat} (bound : k < bytes.length) :
    digit (decode bytes) k = bytes[k] := by
  have written := getElem?_encode (decode bytes) bound
  rw [encode_decode, List.getElem?_eq_getElem bound] at written
  exact (Option.some.inj written).symm

/-- The low bytes come first, then those of the rest. -/
theorem encode_add (low high n : Nat) :
    encode (low + high) n = encode low n ++ encode high (n / 256 ^ low) := by
  induction low generalizing n with
  | zero => simp [encode]
  | succ low ih =>
      rw [Nat.succ_add, encode, ih, div_pow_succ]
      rfl

end LittleEndian

/-! ## Widths -/

/-- The width of an access. -/
inductive Width where
  | byte
  | word
  | dword
deriving DecidableEq, Repr

namespace Width

/-- The bytes that an access takes. -/
def size : Width → Nat
  | byte => 1
  | word => 2
  | dword => 4

/-- The values that an access can have. -/
abbrev Value : Width → Type
  | byte => UInt8
  | word => UInt16
  | dword => UInt32

/-- A value as a number. -/
def toNat : (w : Width) → w.Value → Nat
  | byte => UInt8.toNat
  | word => UInt16.toNat
  | dword => UInt32.toNat

/-- A number as a value, less what does not fit. -/
def truncate : (w : Width) → Nat → w.Value
  | byte => UInt8.ofNat
  | word => UInt16.ofNat
  | dword => UInt32.ofNat

theorem size_le (w : Width) : w.size ≤ 4 := by
  cases w <;> decide

theorem toNat_truncate (w : Width) {n : Nat} (fits : n < Nat.pow 256 w.size) :
    w.toNat (w.truncate n) = n := by
  cases w with
  | byte => exact UInt8.toNat_ofNat_of_lt' fits
  | word => exact UInt16.toNat_ofNat_of_lt' fits
  | dword => exact UInt32.toNat_ofNat_of_lt' fits

theorem truncate_toNat_mod (w : Width) (value : w.Value) :
    w.truncate (w.toNat value % Nat.pow 256 w.size) = value := by
  have fits : w.toNat value < Nat.pow 256 w.size := by
    cases w with
    | byte => exact UInt8.toNat_lt value
    | word => exact UInt16.toNat_lt value
    | dword => exact UInt32.toNat_lt value
  rw [Nat.mod_eq_of_lt fits]
  cases w with
  | byte => exact UInt8.ofNat_toNat
  | word => exact UInt16.ofNat_toNat
  | dword => exact UInt32.ofNat_toNat

end Width

namespace Memory

open LittleEndian (encode decode digit)

/-- What is read through a far pointer. -/
def load (m : Memory) (p : FarPointer) : (w : Width) → w.Value
  | .byte => m.readByte p
  | .word => m.readWord p
  | .dword => m.readDword p

/-- What writing through a far pointer leaves. -/
def store (m : Memory) (p : FarPointer) : (w : Width) → w.Value → Memory
  | .byte => m.writeByte p
  | .word => m.writeWord p
  | .dword => m.writeDword p

theorem load_eq (m : Memory) (p : FarPointer) (w : Width) :
    m.load p w = w.truncate (decode (m.readBlock p.physical w.size)) := by
  cases w with
  | byte => simp [load, readByte, Width.size, Width.truncate, readBlock, decode]
  | word => rfl
  | dword => rfl

theorem store_eq (m : Memory) (p : FarPointer) (w : Width) (value : w.Value) :
    m.store p w value = m.writeBlock p.physical (encode w.size (w.toNat value)) := by
  cases w with
  | byte => simp [store, writeByte, Width.size, Width.toNat, encode, writeBlock]
  | word => rfl
  | dword => rfl

/-! ## Single bytes -/

variable (m : Memory) {p q : FarPointer} {w r : Width}

/-- What an access through a far pointer takes ends within memory. -/
theorem access_le_memorySize (p : FarPointer) (w : Width) :
    p.physical.toNat + w.size ≤ memorySize := by
  have low := p.physical_lt
  have short := w.size_le
  unfold memorySize
  omega

/-- No access through a far pointer reaches the end of memory. -/
theorem wrap_access (p : FarPointer) {k : Nat} (bound : k < 4) :
    (wrap (p.physical + UInt32.ofNat k) : Nat) = p.physical.toNat + k := by
  have low := p.physical_lt
  have size : memorySize = 0x110000 := rfl
  exact wrap_physical_add (by omega)

/-- A value that is read has the bytes of memory from its far pointer on, lowest first. -/
theorem digit_load {k : Nat} (bound : k < r.size) :
    digit (r.toNat (m.load q r)) k = m.peek (q.physical + UInt32.ofNat k) := by
  have small := LittleEndian.decode_lt (m.readBlock q.physical r.size)
  rw [length_readBlock] at small
  rw [load_eq, r.toNat_truncate small, LittleEndian.digit_decode (by simpa using bound)]
  simp [readBlock]

/-- A value that is written puts its bytes from its far pointer on, lowest first. -/
theorem byteAt_store (value : w.Value) (i : Fin memorySize) :
    (m.store p w value).byteAt i =
      if p.physical.toNat ≤ i ∧ i < p.physical.toNat + w.size then
        digit (w.toNat value) (i - p.physical.toNat)
      else m.byteAt i := by
  have inMemory : p.physical.toNat + (encode w.size (w.toNat value)).length ≤ memorySize := by
    rw [LittleEndian.length_encode]
    exact access_le_memorySize p w
  rw [store_eq, byteAt_writeBlock _ _ _ inMemory]
  by_cases before : p.physical.toNat ≤ i
  · by_cases inside : (i : Nat) < p.physical.toNat + w.size
    · have bound : i - p.physical.toNat < w.size := by omega
      simp [before, inside, LittleEndian.getElem?_encode _ bound]
    · have past : (encode w.size (w.toNat value))[i - p.physical.toNat]? = none := by
        rw [List.getElem?_eq_none_iff, LittleEndian.length_encode]
        omega
      simp [before, inside, past]
  · simp [before]

/-! ## Whole values -/

theorem readBlock_add (address : UInt32) (first second : Nat) :
    m.readBlock address (first + second) =
      m.readBlock address first ++ m.readBlock (address + UInt32.ofNat first) second := by
  simp [readBlock, List.range_add, UInt32.add_assoc]

/-- The bytes from a far pointer on are those of the value that was written there. -/
theorem readBlock_store (value : w.Value) :
    (m.store p w value).readBlock p.physical w.size = encode w.size (w.toNat value) := by
  have inMemory := access_le_memorySize p w
  have apart : Apart p.physical (encode w.size (w.toNat value)).length := by
    rw [LittleEndian.length_encode, apart_iff]
    exact .inl ⟨Nat.le_trans inMemory (by decide), Nat.le_trans (Nat.le_add_left _ _) inMemory⟩
  have read := readBlock_writeBlock m p.physical _ apart
  rwa [LittleEndian.length_encode, ← store_eq] at read

/-- A value is read back through every far pointer to the same byte. -/
theorem load_store_same (value : w.Value) (same : q.physical = p.physical) :
    (m.store p w value).load q w = value := by
  rw [load_eq, same, readBlock_store, LittleEndian.decode_encode, w.truncate_toNat_mod]

/-- Memories with the same bytes from a far pointer on give the same value. -/
theorem load_congr {m n : Memory}
    (same : ∀ k < r.size, m.peek (q.physical + UInt32.ofNat k) = n.peek (q.physical + UInt32.ofNat k)) :
    m.load q r = n.load q r := by
  have bytes : m.readBlock q.physical r.size = n.readBlock q.physical r.size :=
    List.map_congr_left fun k member => same k (List.mem_range.1 member)
  rw [load_eq, load_eq, bytes]

/-- What is read away from where a value was written is as before. -/
theorem load_store_apart (value : w.Value)
    (apart : q.physical.toNat + r.size ≤ p.physical.toNat ∨
      p.physical.toNat + w.size ≤ q.physical.toNat) :
    (m.store p w value).load q r = m.load q r := by
  apply load_congr
  intro k bound
  have place := wrap_access q (Nat.lt_of_lt_of_le bound r.size_le)
  rw [peek, byteAt_store, if_neg (by omega), peek]

/-- A far pointer in memory is its offset in one word and its segment in the next. -/
theorem words_writePointer (target : FarPointer) :
    (m.writePointer p target).peekWord p.physical = target.offset ∧
      (m.writePointer p target).peekWord (p.physical + 2) = target.segment := by
  have packed := target.toNat_toDword
  have offsetBound := target.offset.toNat_lt
  have segmentBound := target.segment.toNat_lt
  have stored : (m.writePointer p target).readBlock p.physical (2 + 2) =
      encode (2 + 2) target.toDword.toNat := readBlock_store m (w := .dword) target.toDword
  rw [readBlock_add, LittleEndian.encode_add] at stored
  obtain ⟨first, second⟩ := List.append_inj stored (by simp)
  have high : (65536 * target.segment.toNat + target.offset.toNat) / 65536 % 65536 =
      target.segment.toNat := by omega
  constructor <;> apply UInt16.toNat_inj.1
  · simp [peekWord, first, LittleEndian.decode_encode, packed]
  · change (m.writePointer p target).readBlock (p.physical + 2) 2 = _ at second
    simp [peekWord, second, LittleEndian.decode_encode, packed, high]

/-- **Reading after writing.**  No access through a far pointer reaches the end of memory.  A value
read at `q` after one was written at `p`, each a byte, a word or a double word, has byte by byte, the
lowest first, the bytes of that value where the two overlap, and the bytes of memory elsewhere.  So a
value is read back through every far pointer to the same byte, and so is a far pointer, which lies in
memory with its offset in one word and its segment in the next. -/
theorem load_store (m : Memory) (p q : FarPointer) (w r : Width) (value : w.Value) :
    (p.physical.toNat + 3 < 0x110000 ∧
      ∀ k < 4, (wrap (p.physical + UInt32.ofNat k) : Nat) = p.physical.toNat + k) ∧
    (∀ k < r.size, digit (r.toNat ((m.store p w value).load q r)) k =
      if p.physical.toNat ≤ q.physical.toNat + k ∧
          q.physical.toNat + k < p.physical.toNat + w.size then
        digit (w.toNat value) (q.physical.toNat + k - p.physical.toNat)
      else m.peek (q.physical + UInt32.ofNat k)) ∧
    (q.physical = p.physical → (m.store p w value).load q w = value) ∧
    ∀ target : FarPointer,
      (q.physical = p.physical → (m.writePointer p target).readPointer q = target) ∧
      (m.writePointer p target).peekWord p.physical = target.offset ∧
      (m.writePointer p target).peekWord (p.physical + 2) = target.segment := by
  have low := p.physical_lt
  refine ⟨⟨by omega, fun k => wrap_access p⟩, ?_, load_store_same m value, fun target => ?_⟩
  · intro k bound
    have place := wrap_access q (Nat.lt_of_lt_of_le bound r.size_le)
    rw [digit_load _ bound, peek, byteAt_store, place]
    rfl
  · refine ⟨fun same => ?_, words_writePointer m target⟩
    have read : (m.writePointer p target).readDword q = target.toDword :=
      load_store_same m target.toDword (w := .dword) same
    rw [readPointer, read, FarPointer.ofDword_toDword]

/-- The list of lists is known under many far pointers. -/
example : (FarPointer.mk 0x80 0x26).physical = (FarPointer.mk 0x82 0x06).physical := by
  decide

end Memory

end GuestDos.Machine
