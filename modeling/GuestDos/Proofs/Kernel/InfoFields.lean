/-
# GuestDos.Proofs.Kernel.InfoFields -- the info block as a record of five fields

Four far pointers and the pair of buffer counts are all that can be set in an info block; whatever
stands between them is the boot image.  An operation on a block lays an image of its own at the
block's segment (`perform_eq_lay`), and the image says where it can reach: the whole block for a
placement, one of the five fields for a setting.  The five do not overlap, so a field has what was
stored in it last, and a block has nothing of what is done to another one nine segments away.

* `bootBytes` -- the bytes of a freshly placed block; `freshlyPlaced_place`.
* `Setting`, `Operation` -- setting a field, and anything that is done to a block.
* `byteAt_perform_of_not_covers`, `byteAt_set_of_not_inField` -- what they leave alone.
* `pointer_set`, `buffers_set` -- a field after one setting; `read_setAll` for any settings.
* `byteAt_performOn_filter` -- a block among other blocks.
* `place_setAll_fields` -- all of it.
-/
import GuestDos.Proofs.Machine.Accesses
import GuestDos.Kernel.InfoBlock

namespace GuestDos.Kernel.InfoBlock

set_option autoImplicit false

open GuestDos.Machine (FarPointer Memory Image Field Width memorySize)

variable {block : InfoBlock}

/-! ## A freshly placed block -/

/-- The bytes of a block in a freshly booted system. -/
def bootBytes : List UInt8 :=
  [
    0x00, 0x00, 0x00, 0x00, 0x01, 0x00, 0x00, 0x00, 0x00, 0x00, 0x00, 0x00, 0x00, 0x00, 0x00, 0x00,
    0xff, 0x00, 0xff, 0x00, 0x00, 0x00, 0x00, 0x00, 0x00, 0x00, 0x01, 0x00, 0x01, 0x00, 0x00, 0x00,
    0x00, 0x00, 0x00, 0x00, 0x58, 0x01, 0x00, 0x00, 0x00, 0x00, 0x00, 0x00, 0x00, 0x00, 0x00, 0x00,
    0x00, 0x00, 0x00, 0x00, 0x00, 0x00, 0x00, 0x02, 0x00, 0x00, 0x00, 0x00, 0x00, 0x00, 0x00, 0x00,
    0x00, 0x00, 0x00, 0x00, 0x00, 0x00, 0x00, 0x1a, 0xff, 0xff, 0xff, 0xff, 0x04, 0x80, 0x00, 0x00,
    0x00, 0x00, 0x4e, 0x55, 0x4c, 0x20, 0x20, 0x20, 0x20, 0x20, 0x00, 0x00, 0x00, 0x00, 0x00, 0x00,
    0x00, 0x00, 0x00, 0x00, 0x00, 0x00, 0x00, 0x00, 0x00, 0x03, 0x01, 0x00, 0x00, 0x00, 0x00, 0x00,
    0x00, 0x00, 0x00, 0x00, 0x00, 0x00, 0x00, 0x00, 0x00, 0x00, 0x00, 0x00, 0x00, 0x00, 0x00, 0x00,
    0x58, 0x01, 0xff, 0xff, 0x00, 0x00, 0x00, 0x00, 0x00, 0x00, 0x00, 0x00, 0x00, 0x00, 0x00, 0x00 ]

/-- The far pointers of a block in a freshly booted system: no driver but NUL, and nothing else. -/
def bootPointer : PointerField → FarPointer
  | .deviceChain => ⟨0xffff, 0xffff⟩
  | .currentDirectory | .fcbTable | .diskBufferHead => ⟨0, 0⟩

/-- The byte at an index belongs to the block. -/
def Covers (block : InfoBlock) (i : Nat) : Prop :=
  16 * block.segment.toNat ≤ i ∧ i < 16 * block.segment.toNat + size

/-- The memory `n` is `m` with a freshly placed block in it. -/
structure FreshlyPlaced (block : InfoBlock) (m n : Memory) : Prop where
  room : 16 * block.segment.toNat + size ≤ memorySize
  inside : ∀ field ∈ bootImage,
    (FarPointer.mk block.segment field.offset).physical.toNat + field.bytes.length ≤
      16 * block.segment.toNat + size
  bytes : n.Holds block.location bootBytes
  kept : ∀ i : Fin memorySize, ¬ block.Covers i → n.byteAt i = m.byteAt i
  pointers : ∀ field, block.pointer field n = bootPointer field
  buffers : block.buffers n = (0, 0)

theorem room (block : InfoBlock) : 16 * block.segment.toNat + size ≤ memorySize := by
  have bound := block.segment.toNat_lt
  simp only [size, memorySize]
  omega

theorem toNat_physical_slot (block : InfoBlock) (offset : UInt16) :
    (FarPointer.mk block.segment offset).physical.toNat =
      16 * block.segment.toNat + offset.toNat :=
  FarPointer.toNat_physical _

theorem fitsIn_segment {image : Image} (fits : image.FitsIn size) : image.FitsIn 0x10000 :=
  fun field member => Nat.le_trans (fits field member) (by decide)

/-- Bytes of the boot image are the bytes of a placed block. -/
theorem holds_place (block : InfoBlock) (m : Memory) {offset : UInt16} {bytes : List UInt8}
    (reads : bootImage.Reads offset.toNat bytes) (fits : offset.toNat + bytes.length ≤ size) :
    (block.place m).Holds ⟨block.segment, offset⟩ bytes := by
  have inMemory := block.room
  refine Memory.holds_lay (fitsIn_segment bootImage_fitsIn) reads ?_
  have place := block.toNat_physical_slot offset
  omega

/-! ## Operations -/

/-- What can be stored in a placed block. -/
inductive Setting where
  | point (field : PointerField) (target : FarPointer)
  | count (x y : UInt16)
deriving DecidableEq, Repr

/-- What can be done to a block. -/
inductive Operation where
  | place
  | set (setting : Setting)
deriving DecidableEq, Repr

namespace Setting

/-- Where a setting stores. -/
def image : Setting → Image
  | point field target => [.pointer field.offset target]
  | count x y => [.word bufferOffsets.1 x, .word bufferOffsets.2 y]

/-- The target that a setting stores in a field, if it is about that field. -/
def target? (field : PointerField) : Setting → Option FarPointer
  | point other target => if other = field then some target else none
  | count _ _ => none

/-- The buffer counts that a setting stores, if it is about them. -/
def counts? : Setting → Option (UInt16 × UInt16)
  | point _ _ => none
  | count x y => some (x, y)

end Setting

/-- What an operation stores in the block. -/
def Operation.image : Operation → Image
  | .place => bootImage
  | .set setting => setting.image

/-- The memory after a setting. -/
def set (block : InfoBlock) : Setting → Memory → Memory
  | .point field target => block.setPointer field target
  | .count x y => block.setBuffers x y

/-- The memory after some settings, one after the other. -/
def setAll (block : InfoBlock) (settings : List Setting) (m : Memory) : Memory :=
  settings.foldl (fun n setting => block.set setting n) m

/-- The memory after an operation. -/
def perform (block : InfoBlock) : Operation → Memory → Memory
  | .place => block.place
  | .set setting => block.set setting

/-- The memory after operations on some blocks, one after the other. -/
def performOn (history : List (InfoBlock × Operation)) (m : Memory) : Memory :=
  history.foldl (fun n step => step.1.perform step.2 n) m

theorem set_eq_lay (block : InfoBlock) (setting : Setting) (m : Memory) :
    block.set setting m = m.lay block.segment setting.image := by
  cases setting <;> rfl

theorem perform_eq_lay (block : InfoBlock) (op : Operation) (m : Memory) :
    block.perform op m = m.lay block.segment op.image := by
  cases op with
  | place => rfl
  | set setting => exact block.set_eq_lay setting m

/-! ## What an operation reaches -/

/-- Where the five fields start; each has four bytes. -/
def fieldOffsets : List Nat :=
  [0x3c, 0x40, 0x48, 0x65, 0x6d]

/-- The byte at an index belongs to one of the five fields. -/
def InField (block : InfoBlock) (i : Nat) : Prop :=
  ∃ offset ∈ fieldOffsets, 16 * block.segment.toNat + offset ≤ i ∧
    i < 16 * block.segment.toNat + offset + 4

/-- A setting stores within the five fields. -/
theorem Setting.within (setting : Setting) :
    ∀ field ∈ setting.image, ∃ offset ∈ fieldOffsets,
      offset ≤ field.offset.toNat ∧ field.finish ≤ offset + 4 := by
  intro field member
  cases setting with
  | point slot target =>
      rw [List.mem_singleton.1 member]
      exact ⟨slot.offset.toNat, by cases slot <;> decide, Nat.le_refl _, Nat.le_refl _⟩
  | count x y =>
      simp only [Setting.image, List.mem_cons, List.not_mem_nil, or_false] at member
      obtain rfl | rfl := member <;>
        exact ⟨0x65, by simp [fieldOffsets, Field.finish, Field.word, bufferOffsets]⟩

theorem Setting.image_fitsIn (setting : Setting) : setting.image.FitsIn size := by
  intro field member
  obtain ⟨offset, known, -, finish⟩ := setting.within field member
  have last : ∀ offset ∈ fieldOffsets, offset + 4 ≤ size := by decide
  exact Nat.le_trans finish (last offset known)

theorem Operation.image_fitsIn (op : Operation) : op.image.FitsIn size := by
  cases op with
  | place => exact bootImage_fitsIn
  | set setting => exact setting.image_fitsIn

variable {m n : Memory} {i : Fin memorySize}

/-- What an operation leaves at an index depends on nothing but what was there. -/
theorem byteAt_perform_congr (op : Operation) (same : m.byteAt i = n.byteAt i) :
    (block.perform op m).byteAt i = (block.perform op n).byteAt i := by
  have fits := fitsIn_segment op.image_fitsIn
  rw [perform_eq_lay, perform_eq_lay, Memory.byteAt_lay _ _ _ fits, Memory.byteAt_lay _ _ _ fits,
    same]

/-- No operation reaches beyond the block. -/
theorem byteAt_perform_of_not_covers (op : Operation) (outside : ¬ block.Covers i) :
    (block.perform op m).byteAt i = m.byteAt i := by
  rw [perform_eq_lay]
  refine Memory.byteAt_lay_of_outside (fitsIn_segment op.image_fitsIn) fun field member => ?_
  have fits := op.image_fitsIn field member
  unfold Covers at outside
  omega

/-- No setting reaches beyond the five fields. -/
theorem byteAt_set_of_not_inField (setting : Setting) (outside : ¬ block.InField i) :
    (block.set setting m).byteAt i = m.byteAt i := by
  rw [set_eq_lay]
  refine Memory.byteAt_lay_of_outside (fitsIn_segment setting.image_fitsIn) fun field member => ?_
  obtain ⟨offset, known, start, finish⟩ := setting.within field member
  have beside : ¬ (16 * block.segment.toNat + offset ≤ i ∧
      i < 16 * block.segment.toNat + offset + 4) := fun inside => outside ⟨offset, known, inside⟩
  omega

theorem byteAt_setAll_of_not_inField (settings : List Setting) (outside : ¬ block.InField i) :
    (block.setAll settings m).byteAt i = m.byteAt i := by
  induction settings generalizing m with
  | nil => rfl
  | cons setting rest ih => exact ih.trans (byteAt_set_of_not_inField setting outside)

/-! ## What is read of a field -/

/-- Different far pointers of the block do not overlap. -/
theorem PointerField.apart {field other : PointerField} (different : other ≠ field) :
    field.offset.toNat + 4 ≤ other.offset.toNat ∨ other.offset.toNat + 4 ≤ field.offset.toNat := by
  revert different
  cases field <;> cases other <;> decide

/-- The buffer counts lie between the far pointers. -/
theorem PointerField.apart_counts (field : PointerField) :
    (field.offset.toNat + 4 ≤ bufferOffsets.1.toNat ∨
        bufferOffsets.1.toNat + 2 ≤ field.offset.toNat) ∧
      (field.offset.toNat + 4 ≤ bufferOffsets.2.toNat ∨
        bufferOffsets.2.toNat + 2 ≤ field.offset.toNat) := by
  cases field <;> decide

/-- What is stored in one place of a segment does not show in another that it does not overlap. -/
theorem load_store_of_offsets {segment offset other : UInt16} {w r : Width} (value : w.Value)
    (apart : other.toNat + r.size ≤ offset.toNat ∨ offset.toNat + w.size ≤ other.toNat) :
    (m.store ⟨segment, offset⟩ w value).load ⟨segment, other⟩ r = m.load ⟨segment, other⟩ r := by
  apply Memory.load_store_apart
  rw [FarPointer.toNat_physical, FarPointer.toNat_physical]
  simp only
  omega

/-- A far pointer has what a setting stores in it, and else what it had. -/
theorem pointer_set (field : PointerField) (setting : Setting) (m : Memory) :
    block.pointer field (block.set setting m) =
      (setting.target? field).getD (block.pointer field m) := by
  cases setting with
  | point other target =>
      by_cases same : other = field
      · subst same
        have read : (block.setPointer other target m).readDword (block.slot other) =
            target.toDword := Memory.load_store_same m (w := .dword) target.toDword rfl
        simp [set, pointer, Memory.readPointer, read, Setting.target?]
      · have read : (block.setPointer other target m).readDword (block.slot field) =
            m.readDword (block.slot field) :=
          load_store_of_offsets (w := .dword) (r := .dword) target.toDword
            (PointerField.apart same)
        simp [set, pointer, Memory.readPointer, read, Setting.target?, same]
  | count x y =>
      obtain ⟨first, second⟩ := field.apart_counts
      have read : (block.setBuffers x y m).readDword (block.slot field) =
          m.readDword (block.slot field) :=
        (load_store_of_offsets (w := .word) (r := .dword) y second).trans
          (load_store_of_offsets (w := .word) (r := .dword) x first)
      simp [set, pointer, Memory.readPointer, read, Setting.target?]

/-- The buffer counts are what a setting stores in them, and else what they were. -/
theorem buffers_set (setting : Setting) (m : Memory) :
    block.buffers (block.set setting m) = setting.counts?.getD (block.buffers m) := by
  cases setting with
  | point field target =>
      obtain ⟨first, second⟩ := field.apart_counts
      have readFirst : (block.setPointer field target m).readWord ⟨block.segment, bufferOffsets.1⟩ =
          m.readWord ⟨block.segment, bufferOffsets.1⟩ :=
        load_store_of_offsets (w := .dword) (r := .word) target.toDword first.symm
      have readSecond :
          (block.setPointer field target m).readWord ⟨block.segment, bufferOffsets.2⟩ =
            m.readWord ⟨block.segment, bufferOffsets.2⟩ :=
        load_store_of_offsets (w := .dword) (r := .word) target.toDword second.symm
      simp [set, buffers, readFirst, readSecond, Setting.counts?]
  | count x y =>
      have readFirst : (block.setBuffers x y m).readWord ⟨block.segment, bufferOffsets.1⟩ = x :=
        (load_store_of_offsets (w := .word) (r := .word) y (.inl (by decide))).trans
          (Memory.load_store_same m (w := .word) x rfl)
      have readSecond : (block.setBuffers x y m).readWord ⟨block.segment, bufferOffsets.2⟩ = y :=
        Memory.load_store_same _ (w := .word) y rfl
      simp [set, buffers, readFirst, readSecond, Setting.counts?]

/-- What is read of a field after any settings is what was stored in it last, if each single setting
leaves what it stores and else what was there. -/
theorem read_setAll {α : Type} {read : Memory → α} {stored? : Setting → Option α}
    (step : ∀ (setting : Setting) (m : Memory),
      read (block.set setting m) = (stored? setting).getD (read m))
    (settings : List Setting) (m : Memory) :
    read (block.setAll settings m) = (settings.filterMap stored?).getLastD (read m) := by
  induction settings generalizing m with
  | nil => rfl
  | cons setting rest ih =>
      have after := step setting m
      have onward : read (block.setAll (setting :: rest) m) =
          (rest.filterMap stored?).getLastD (read (block.set setting m)) := ih _
      cases stored : stored? setting with
      | none =>
          rw [onward, after, stored, List.filterMap_cons_none stored, Option.getD_none]
      | some value =>
          rw [onward, after, stored, List.filterMap_cons_some stored, List.getLastD_cons,
            Option.getD_some]

/-! ## A block among others -/

/-- The segments are at least nine apart: no byte belongs to both blocks. -/
def NineApart (block other : InfoBlock) : Prop :=
  block.segment.toNat + 9 ≤ other.segment.toNat ∨ other.segment.toNat + 9 ≤ block.segment.toNat

theorem NineApart.not_covers {other : InfoBlock} (apart : block.NineApart other) {i : Nat}
    (covered : block.Covers i) : ¬ other.Covers i := by
  have nine : size = 16 * 9 := rfl
  unfold NineApart at apart
  unfold Covers at *
  omega

/-- **A block among others**: what is done to blocks nine apart leaves its bytes as what is done to it
alone does. -/
theorem byteAt_performOn_filter {history : List (InfoBlock × Operation)}
    (apart : ∀ step ∈ history, step.1 = block ∨ block.NineApart step.1) (covered : block.Covers i)
    (same : m.byteAt i = n.byteAt i) :
    (performOn history m).byteAt i =
      (performOn (history.filter (·.1 = block)) n).byteAt i := by
  induction history generalizing m n with
  | nil => exact same
  | cons step rest ih =>
      have later := fun next (member : next ∈ rest) => apart next (List.mem_cons_of_mem step member)
      by_cases own : step.1 = block
      · rw [List.filter_cons_of_pos (by simpa using own)]
        exact ih later (byteAt_perform_congr step.2 same)
      · rw [List.filter_cons_of_neg (by simpa using own)]
        have distant := (apart step List.mem_cons_self).resolve_left own
        exact ih later
          ((byteAt_perform_of_not_covers step.2 (distant.not_covers covered)).trans same)

/-- What is read in a block depends on its bytes alone. -/
theorem load_congr_of_covers (same : ∀ i : Fin memorySize, block.Covers i → m.byteAt i = n.byteAt i)
    (offset : UInt16) (r : Width) (fits : offset.toNat + r.size ≤ size) :
    m.load ⟨block.segment, offset⟩ r = n.load ⟨block.segment, offset⟩ r := by
  apply Memory.load_congr
  intro k bound
  have place := Memory.wrap_access ⟨block.segment, offset⟩ (Nat.lt_of_lt_of_le bound r.size_le)
  rw [toNat_physical_slot] at place
  apply same
  unfold Covers
  omega

theorem pointer_congr (same : ∀ i : Fin memorySize, block.Covers i → m.byteAt i = n.byteAt i)
    (field : PointerField) : block.pointer field m = block.pointer field n :=
  congrArg FarPointer.ofDword
    (load_congr_of_covers same field.offset .dword (by cases field <;> decide))

theorem buffers_congr (same : ∀ i : Fin memorySize, block.Covers i → m.byteAt i = n.byteAt i) :
    block.buffers m = block.buffers n :=
  Prod.ext (load_congr_of_covers same bufferOffsets.1 .word (by decide))
    (load_congr_of_covers same bufferOffsets.2 .word (by decide))

/-! ## A freshly placed block -/

theorem freshlyPlaced_place (block : InfoBlock) (m : Memory) :
    block.FreshlyPlaced m (block.place m) where
  room := block.room
  inside field member := by
    have fits := bootImage_fitsIn field member
    have place := block.toNat_physical_slot field.offset
    unfold Field.finish at fits
    omega
  bytes := holds_place block m (by decide +kernel) (by decide +kernel)
  kept i outside := byteAt_perform_of_not_covers .place outside
  pointers field := by
    apply Memory.readPointer_of_holds
    cases field <;> exact holds_place block m (by decide +kernel) (by decide)
  buffers := by
    refine Prod.ext (Memory.readWord_of_holds ?_) (Memory.readWord_of_holds ?_) <;>
      exact holds_place block m (by decide +kernel) (by decide)

/-- **An info block is a record of five fields.**  Placing a block anywhere makes its bytes those of a
freshly booted system, changes no other byte and does not wrap, and its fields then read as in such a
system.  After any settings a field has what was stored in it last, or what it had when the block was
placed, and every byte outside of the five fields is as it was.  And in any memory, after operations
on the block and on others at least nine segments away, its bytes and its fields are what the
operations on the block alone make of them. -/
theorem place_setAll_fields (block : InfoBlock) (m : Memory) :
    block.FreshlyPlaced m (block.place m) ∧
    (∀ settings : List Setting,
      let n := block.setAll settings (block.place m)
      (∀ field, block.pointer field n =
        (settings.filterMap (Setting.target? field)).getLastD (bootPointer field)) ∧
      block.buffers n = (settings.filterMap Setting.counts?).getLastD (0, 0) ∧
      ∀ i : Fin memorySize, ¬ block.InField i → n.byteAt i = (block.place m).byteAt i) ∧
    ∀ history : List (InfoBlock × Operation),
      (∀ step ∈ history, step.1 = block ∨ block.NineApart step.1) →
      let all := performOn history m
      let own := performOn (history.filter (·.1 = block)) m
      (∀ i : Fin memorySize, block.Covers i → all.byteAt i = own.byteAt i) ∧
      (∀ field, block.pointer field all = block.pointer field own) ∧
      block.buffers all = block.buffers own := by
  have fresh := freshlyPlaced_place block m
  refine ⟨fresh, fun settings => ⟨fun field => ?_, ?_, ?_⟩, fun history apart => ?_⟩
  · rw [← fresh.pointers field]
    exact read_setAll (pointer_set field) settings (block.place m)
  · rw [← fresh.buffers]
    exact read_setAll buffers_set settings (block.place m)
  · exact fun i outside => byteAt_setAll_of_not_inField settings outside
  · have same : ∀ i : Fin memorySize, block.Covers i → (performOn history m).byteAt i =
        (performOn (history.filter (·.1 = block)) m).byteAt i :=
      fun i covered => byteAt_performOn_filter apart covered rfl
    exact ⟨same, pointer_congr same, buffers_congr same⟩

end GuestDos.Kernel.InfoBlock
