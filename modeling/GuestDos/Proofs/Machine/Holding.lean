/-
# GuestDos.Proofs.Machine.Holding -- the bytes that a memory holds

`Memory.Holds m p bytes` says that the bytes from a far pointer on are these.  It is read off the
view of the memory, byte by byte (`holds_iff`), and a word or a far pointer is what its bytes say
(`readWord_of_holds`, `readPointer_of_holds`).

* `Image.Reads` -- what an image says about a stretch of its segment.
* `holds_lay` -- what an image says is what the memory holds once it is laid out;
  `byteAt_lay_of_outside` for the bytes that it says nothing about.
-/
import GuestDos.Machine.Image

namespace GuestDos.Machine

set_option autoImplicit false

/-- The bytes from a far pointer on. -/
def Memory.Holds (m : Memory) (p : FarPointer) (bytes : List UInt8) : Prop :=
  m.readBlock p.physical bytes.length = bytes

/-! ## What an image says -/

/-- What an image says about the bytes from an offset on. -/
def Image.Reads (image : Image) (offset : Nat) (bytes : List UInt8) : Prop :=
  (List.range bytes.length).map (fun k => image.byteAt? (offset + k)) = bytes.map some

instance (image : Image) (offset : Nat) (bytes : List UInt8) :
    Decidable (image.Reads offset bytes) :=
  inferInstanceAs (Decidable (_ = _))

/-- The field covers an offset from `first` up to `last`. -/
def Field.meets (field : Field) (first last : Nat) : Bool :=
  decide (field.offset.toNat < last) && decide (first < field.finish)

namespace Image

theorem reads_iff {image : Image} {offset : Nat} {bytes : List UInt8} :
    image.Reads offset bytes ↔
      ∀ (k : Nat) (bound : k < bytes.length), image.byteAt? (offset + k) = some bytes[k] := by
  constructor
  · intro reads k bound
    have listed := congrArg (fun l => l[k]?) reads
    simpa [bound] using listed
  · intro each
    apply List.ext_getElem (by simp)
    intro k _ bound
    simp only [List.length_map] at bound
    simp only [List.getElem_map, List.getElem_range]
    exact each k bound

theorem reads_append {image : Image} {offset : Nat} {first second : List UInt8} :
    image.Reads offset (first ++ second) ↔
      image.Reads offset first ∧ image.Reads (offset + first.length) second := by
  simp only [Reads, List.length_append, List.range_add, List.map_append, List.map_map]
  constructor
  · intro both
    obtain ⟨left, right⟩ := List.append_inj both (by simp)
    refine ⟨left, ?_⟩
    rw [← right]
    apply List.map_congr_left
    intro k _
    simp [Nat.add_assoc]
  · rintro ⟨left, right⟩
    rw [left, ← right]
    congr 1
    apply List.map_congr_left
    intro k _
    simp [Nat.add_assoc]

/-- Only the fields that cover a stretch matter in it. -/
theorem byteAt?_filter (image : Image) {first last k : Nat} (low : first ≤ k) (high : k < last) :
    byteAt? (image.filter fun field => field.meets first last) k = image.byteAt? k := by
  induction image with
  | nil => rfl
  | cons field rest ih =>
      cases meets : field.meets first last with
      | true =>
          have kept : (field :: rest).filter (fun field => field.meets first last) =
              field :: rest.filter fun field => field.meets first last :=
            List.filter_cons_of_pos meets
          rw [kept]
          simp only [byteAt?, ih]
      | false =>
          have silent : field.byteAt? k = none := by
            simp only [Field.meets, Bool.and_eq_false_iff, decide_eq_false_iff_not, Nat.not_lt]
              at meets
            obtain after | before := meets
            · exact Field.byteAt?_of_lt (Nat.lt_of_lt_of_le high after)
            · exact Field.byteAt?_of_finish_le (Nat.le_trans before low)
          have dropped : (field :: rest).filter (fun field => field.meets first last) =
              rest.filter fun field => field.meets first last :=
            List.filter_cons_of_neg (by rw [meets]; decide)
          rw [dropped, ih]
          simp [byteAt?, silent]

/-- Images with the same fields over a stretch say the same about it. -/
theorem reads_congr {image other : Image} {offset : Nat} {bytes : List UInt8}
    (same : image.filter (fun field => field.meets offset (offset + bytes.length)) =
      other.filter fun field => field.meets offset (offset + bytes.length))
    (reads : other.Reads offset bytes) : image.Reads offset bytes := by
  rw [reads_iff] at reads ⊢
  intro k bound
  rw [← byteAt?_filter image (Nat.le_add_right offset k) (Nat.add_lt_add_left bound offset), same,
    byteAt?_filter other (Nat.le_add_right offset k) (Nat.add_lt_add_left bound offset)]
  exact reads k bound

/-- No field covers the offset. -/
theorem byteAt?_of_outside {image : Image} {k : Nat}
    (outside : ∀ field ∈ image, k < field.offset.toNat ∨ field.finish ≤ k) :
    image.byteAt? k = none := by
  induction image with
  | nil => rfl
  | cons field rest ih =>
      have here : field.byteAt? k = none :=
        (outside field List.mem_cons_self).elim Field.byteAt?_of_lt Field.byteAt?_of_finish_le
      rw [byteAt?, here, ih fun other member => outside other (List.mem_cons_of_mem _ member)]
      rfl

theorem byteAt?_of_fitsIn {image : Image} {size k : Nat} (fits : image.FitsIn size)
    (past : size ≤ k) : image.byteAt? k = none :=
  byteAt?_of_outside fun field member => .inr (Nat.le_trans (fits field member) past)

theorem byteAt?_append (earlier later : Image) (k : Nat) :
    byteAt? (earlier ++ later) k = (later.byteAt? k).or (earlier.byteAt? k) := by
  induction earlier with
  | nil => simp [byteAt?]
  | cons field rest ih =>
      show (byteAt? (rest ++ later) k).or (field.byteAt? k) = _
      rw [ih, Option.or_assoc]
      rfl

theorem reads_single (field : Field) : Reads [field] field.offset.toNat field.bytes := by
  rw [reads_iff]
  intro k bound
  simp [byteAt?, Field.byteAt?, bound]

/-- A field that is the last one stored in its stretch is read as it is. -/
theorem reads_field {image : Image} (field : Field)
    (last : (image.filter fun other => other.meets field.offset.toNat field.finish).getLast? =
      some field) :
    image.Reads field.offset.toNat field.bytes := by
  obtain ⟨earlier, split⟩ := List.getLast?_eq_some_iff.1 last
  rw [reads_iff]
  intro k bound
  rw [← byteAt?_filter image (Nat.le_add_right field.offset.toNat k)
    (Nat.add_lt_add_left bound field.offset.toNat)]
  show byteAt? (image.filter fun other => other.meets field.offset.toNat field.finish) _ = _
  rw [split, byteAt?_append]
  simp [byteAt?, Field.byteAt?, bound]

theorem reads_append_field {earlier later : Image} (field : Field)
    (alone : later.filter (fun other => other.meets field.offset.toNat field.finish) = [field]) :
    (earlier ++ later).Reads field.offset.toNat field.bytes := by
  apply reads_field
  rw [List.filter_append, alone, List.getLast?_concat]

/-- What is stored later may be replaced by something with the same fields over the stretch. -/
theorem reads_append_congr {earlier later other : Image} {offset : Nat} {bytes : List UInt8}
    (same : later.filter (fun field => field.meets offset (offset + bytes.length)) =
      other.filter fun field => field.meets offset (offset + bytes.length))
    (reads : (earlier ++ other).Reads offset bytes) : (earlier ++ later).Reads offset bytes := by
  apply reads_congr ?_ reads
  rw [List.filter_append, List.filter_append, same]

end Image

/-! ## What a memory holds -/

namespace Memory

variable {m : Memory} {p : FarPointer}

/-- An address that a far pointer and a distance make does not wrap within the memory. -/
theorem wrap_physical_add {k : Nat} (inside : p.physical.toNat + k < memorySize) :
    (wrap (p.physical + UInt32.ofNat k) : Nat) = p.physical.toNat + k := by
  have size : memorySize = 0x110000 := rfl
  have small : (UInt32.ofNat k).toNat = k := by
    apply UInt32.toNat_ofNat_of_lt'
    simp only [UInt32.size]
    omega
  show (p.physical + UInt32.ofNat k).toNat % memorySize = _
  have low : p.physical.toNat + k < 2 ^ 32 := by omega
  rw [UInt32.toNat_add, small, Nat.mod_eq_of_lt low, Nat.mod_eq_of_lt inside]

theorem holds_iff {bytes : List UInt8} (inside : p.physical.toNat + bytes.length ≤ memorySize) :
    m.Holds p bytes ↔ ∀ (k : Nat) (bound : k < bytes.length),
      m.byteAt ⟨p.physical.toNat + k, by omega⟩ = bytes[k] := by
  have byte : ∀ (k : Nat) (bound : k < bytes.length),
      m.peek (p.physical + UInt32.ofNat k) = m.byteAt ⟨p.physical.toNat + k, by omega⟩ := by
    intro k bound
    unfold peek
    congr 1
    exact Fin.ext (wrap_physical_add (by omega))
  constructor
  · intro holds k bound
    have listed := congrArg (fun l => l[k]?) holds
    simp only [readBlock, List.getElem?_map, List.getElem?_range bound, Option.map_some,
      List.getElem?_eq_getElem bound, Option.some.injEq] at listed
    rw [← byte k bound]
    exact listed
  · intro same
    apply List.ext_getElem (length_readBlock _ _ _)
    intro k _ bound
    rw [← same k bound, ← byte k bound]
    simp [readBlock]

/-- Memories with the same bytes from a far pointer on hold the same there. -/
theorem Holds.congr {n : Memory} {bytes : List UInt8}
    (inside : p.physical.toNat + bytes.length ≤ memorySize)
    (same : ∀ (k : Nat) (bound : k < bytes.length),
      m.byteAt ⟨p.physical.toNat + k, by omega⟩ = n.byteAt ⟨p.physical.toNat + k, by omega⟩)
    (holds : n.Holds p bytes) : m.Holds p bytes := by
  rw [holds_iff inside] at holds ⊢
  intro k bound
  rw [same k bound, holds k bound]

/-- What is held in the middle of something held. -/
theorem Holds.middle {q : FarPointer} {before bytes after : List UInt8}
    (holds : m.Holds p (before ++ bytes ++ after))
    (inside : p.physical.toNat + (before ++ bytes ++ after).length ≤ memorySize)
    (place : q.physical.toNat = p.physical.toNat + before.length) : m.Holds q bytes := by
  rw [holds_iff inside] at holds
  simp only [List.length_append] at inside holds
  rw [holds_iff (by omega)]
  intro k bound
  have read := holds (before.length + k) (by omega)
  rw [List.getElem_append_left (by simp only [List.length_append]; omega),
    List.getElem_append_right (Nat.le_add_right _ k)] at read
  simp only [Nat.add_sub_cancel_left] at read
  rw [← read]
  congr 1
  apply Fin.ext
  show q.physical.toNat + k = p.physical.toNat + (before.length + k)
  omega

/-- A byte that no field of an image covers stays as it is. -/
theorem byteAt_lay_of_outside {segment : UInt16} {image : Image} {i : Fin memorySize}
    (fits : image.FitsIn 0x10000)
    (outside : ∀ field ∈ image, i < 16 * segment.toNat + field.offset.toNat ∨
      16 * segment.toNat + field.finish ≤ i) :
    (m.lay segment image).byteAt i = m.byteAt i := by
  rw [byteAt_lay _ _ _ fits]
  by_cases below : 16 * segment.toNat ≤ i
  · have silent : image.byteAt? (i - 16 * segment.toNat) = none := by
      refine Image.byteAt?_of_outside fun field member => ?_
      have beside := outside field member
      omega
    simp [silent]
  · simp [below]

/-- Laying an image out makes the memory hold what the image says. -/
theorem holds_lay {segment offset : UInt16} {image : Image} {bytes : List UInt8}
    (fits : image.FitsIn 0x10000) (reads : image.Reads offset.toNat bytes)
    (inside : (FarPointer.mk segment offset).physical.toNat + bytes.length ≤ memorySize) :
    (m.lay segment image).Holds ⟨segment, offset⟩ bytes := by
  rw [holds_iff inside]
  intro k bound
  have read := Image.reads_iff.1 reads k bound
  rw [byteAt_lay _ _ _ fits]
  simp only [FarPointer.toNat_physical]
  rw [if_pos (by omega)]
  have distance : 16 * segment.toNat + offset.toNat + k - 16 * segment.toNat =
      offset.toNat + k := by omega
  rw [distance, read]
  rfl

theorem readWord_of_holds {value : UInt16}
    (holds : m.Holds p (LittleEndian.encode 2 value.toNat)) : m.readWord p = value := by
  unfold Holds at holds
  rw [LittleEndian.length_encode] at holds
  unfold readWord peekWord
  have small : value.toNat < Nat.pow 256 2 := value.toNat_lt
  rw [holds, LittleEndian.decode_encode, Nat.mod_eq_of_lt small, UInt16.ofNat_toNat]

theorem readPointer_of_holds {value : FarPointer}
    (holds : m.Holds p (LittleEndian.encode 4 value.toDword.toNat)) : m.readPointer p = value := by
  unfold Holds at holds
  rw [LittleEndian.length_encode] at holds
  unfold readPointer readDword peekDword
  have small : value.toDword.toNat < Nat.pow 256 4 := value.toDword.toNat_lt
  rw [holds, LittleEndian.decode_encode, Nat.mod_eq_of_lt small, UInt32.ofNat_toNat,
    FarPointer.ofDword_toDword]

end Memory

end GuestDos.Machine
