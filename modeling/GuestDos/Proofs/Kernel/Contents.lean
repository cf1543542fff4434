/-
# GuestDos.Proofs.Kernel.Contents -- what every place holds after booting

The places do not overlap when private memory lies between the fixed places and the stubs, so what
a place holds in the end is decided by what was stored in it, whatever else was stored before,
between or after.

* `Site.image` -- everything that booting stores in a place, in order; `contents_eq`.
* `places_apart` -- no address belongs to two places.
* `byteAt_booted` -- after booting, a place is its image laid on the memory from before.
* `holds_booted` -- so a place holds what its image says.
-/
import GuestDos.Proofs.Kernel.OwnWrites
import GuestDos.Proofs.Machine.Holding

namespace GuestDos.Kernel

set_option autoImplicit false

open GuestDos.Machine (FarPointer Memory Field Image memorySize)
open Boot

/-! ## What is stored in a place -/

/-- What a step stores in a place. -/
def BootStep.imageAt (site : Site) (place : Place) : BootStep → Image
  | reserve _ => []
  | lay other image => if other = place then image else []
  | install =>
      if Place.stub = place then
        [⟨(CallbackTable.entry site.number).offset, CallbackTable.stub site.number⟩]
      else []

/-- What steps store in a place, in order. -/
def imageOf (site : Site) (place : Place) (steps : List BootStep) : Image :=
  steps.flatMap (BootStep.imageAt site place)

/-- The driver that the chain starts with. -/
def Site.firstDriver (site : Site) : Place :=
  if site.japanese then .table .ibmAdsp else .consoleDriver

/-- What the info block is linked to. -/
def Site.linked (site : Site) : InfoBlock.PointerField → FarPointer
  | .deviceChain => .ofSegment (site.segment site.firstDriver)
  | .currentDirectory => .ofSegment Layout.currentDirectorySegment
  | .fcbTable => site.pointer .fileTable
  | .diskBufferHead => site.pointer .diskBuffer

/-- What is stored in the info block after its boot image. -/
def Site.links (site : Site) : Image :=
  [ .pointer InfoBlock.PointerField.deviceChain.offset (site.linked .deviceChain),
    .pointer InfoBlock.PointerField.currentDirectory.offset (site.linked .currentDirectory),
    .pointer InfoBlock.PointerField.fcbTable.offset (site.linked .fcbTable),
    .pointer InfoBlock.PointerField.diskBufferHead.offset (site.linked .diskBufferHead),
    .word InfoBlock.bufferOffsets.1 Tables.bufferCount,
    .word InfoBlock.bufferOffsets.2 Tables.bufferCount ]

/-- What booting stores in a place, in order. -/
def Site.image (site : Site) : Place → Image
  | .infoBlock => InfoBlock.bootImage ++ site.links
  | .swappableArea => [.zeros 0 swappableAreaSize, .byte 2 0xff]
  | .consoleNames => Tables.consoleNames
  | .consoleDriver => Tables.consoleDriver
  | .currentDirectory => Tables.currentDirectory
  | .leadBytes =>
      if site.config.setAx || site.japanese then Tables.leadBytes else Tables.noLeadBytes
  | .stub => [⟨(CallbackTable.entry site.number).offset, CallbackTable.stub site.number⟩]
  | .table .mediaIds => Tables.mediaIds
  | .table .ibmAdsp => if site.japanese then Tables.ibmAdsp else []
  | .table .startupInfo =>
      if site.japanese then Tables.startupInfo (site.segment (.table .startupInfo)) else []
  | .table .fileNameChars => Tables.fileNameChars
  | .table .collation => Tables.collation
  | .table .fileTable => Tables.fileTable
  | .table .driveParameters => Tables.driveParameters
  | .table .diskBuffer => Tables.diskBuffer
  | .table .country => Tables.country site.config (CallbackTable.entry site.number)
  | .table .transferArea | .table .deletionTransferArea | .table .devicePacket
  | .table .longNameArea => []

theorem imageOf_bootPlan (site : Site) (place : Place) :
    imageOf site place (bootPlan site) = site.image place := by
  unfold bootPlan driverPlan closingPlan Site.image Site.links Site.linked Site.firstDriver
  cases japanese : site.japanese with
  | false =>
      cases place with
      | table table => cases table <;> first | rfl | exact List.append_nil _
      | leadBytes => exact List.append_nil _
      | _ => rfl
  | true =>
      cases place with
      | table table => cases table <;> first | rfl | exact List.append_nil _
      | leadBytes => exact List.append_nil _
      | _ => rfl

theorem writes_filter (site : Site) (place : Place) (step : BootStep) :
    (step.writes site).filter (fun w => w.place = place) =
      (step.imageAt site place).map (Write.mk place) := by
  cases step with
  | reserve _ => rfl
  | lay other image =>
      simp only [BootStep.writes, BootStep.imageAt]
      by_cases same : other = place
      · subst same
        rw [if_pos rfl]
        apply List.filter_eq_self.2
        intro w member
        obtain ⟨field, -, rfl⟩ := List.mem_map.1 member
        exact decide_eq_true rfl
      · rw [if_neg same]
        apply List.filter_eq_nil_iff.2
        intro w member
        obtain ⟨field, -, rfl⟩ := List.mem_map.1 member
        simpa using same
  | install =>
      simp only [BootStep.writes, BootStep.imageAt]
      by_cases same : Place.stub = place
      · subst same
        rfl
      · simp [same]

theorem writesOf_filter (site : Site) (place : Place) (steps : List BootStep) :
    (writesOf site steps).filter (fun w => w.place = place) =
      (imageOf site place steps).map (Write.mk place) := by
  induction steps with
  | nil => rfl
  | cons step rest ih =>
      rw [writesOf_cons, List.filter_append, writes_filter, ih, ← List.map_append]
      rfl

theorem mem_writesOf {site : Site} {place : Place} {steps : List BootStep} {field : Field}
    (member : field ∈ imageOf site place steps) : ⟨place, field⟩ ∈ writesOf site steps := by
  have stored : Write.mk place field ∈ (writesOf site steps).filter fun w => w.place = place := by
    rw [writesOf_filter]
    exact List.mem_map_of_mem member
  exact (List.mem_filter.1 stored).1

/-! ## Other places do not matter -/

section Overlay

variable {site : Site} {place : Place}

/-- Where two memories agree, they agree after a write. -/
theorem byteAt_apply_congr {m n : Memory} {w : Write} (fits : site.Fits w.place w.field)
    {i : Fin memorySize} (same : m.byteAt i = n.byteAt i) :
    (w.apply site m).byteAt i = (w.apply site n).byteAt i := by
  unfold Write.apply Write.pointer
  rw [Memory.byteAt_storeField _ _ _ fits.finish_le, Memory.byteAt_storeField _ _ _ fits.finish_le,
    same]

/-- At an address of a place, only the writes to that place count. -/
theorem byteAt_applyAll_filter {m n : Memory} {journal : List Write}
    (fits : ∀ w ∈ journal, site.Fits w.place w.field) {i : Fin memorySize}
    (others : ∀ w ∈ journal, w.place ≠ place → ¬ site.Owns w.place i)
    (same : m.byteAt i = n.byteAt i) :
    (applyAll site m journal).byteAt i =
      (applyAll site n (journal.filter fun w => w.place = place)).byteAt i := by
  -- Both memories change with the journal; what stays is that they agree at this address.
  induction journal generalizing m n with
  | nil => exact same
  | cons w rest ih =>
      have restFits : ∀ v ∈ rest, site.Fits v.place v.field :=
        fun v later => fits v (List.mem_cons_of_mem _ later)
      have restOthers : ∀ v ∈ rest, v.place ≠ place → ¬ site.Owns v.place i :=
        fun v later => others v (List.mem_cons_of_mem _ later)
      by_cases here : w.place = place
      · have kept : (w :: rest).filter (fun w => w.place = place) =
            w :: rest.filter fun w => w.place = place :=
          List.filter_cons_of_pos (decide_eq_true here)
        rw [kept]
        exact ih restFits restOthers (byteAt_apply_congr (fits w List.mem_cons_self) same)
      · have dropped : (w :: rest).filter (fun w => w.place = place) =
            rest.filter fun w => w.place = place :=
          List.filter_cons_of_neg (by simpa using here)
        rw [dropped]
        apply ih restFits restOthers
        rw [byteAt_apply_of_not_owns m (fits w List.mem_cons_self) i
          (others w List.mem_cons_self here), same]

/-- At an address of a place, the journal of steps is the place's image laid on what was there. -/
theorem byteAt_writesOf {m : Memory} {steps : List BootStep}
    (fits : ∀ w ∈ writesOf site steps, site.Fits w.place w.field) {i : Fin memorySize}
    (others : ∀ w ∈ writesOf site steps, w.place ≠ place → ¬ site.Owns w.place i) :
    (applyAll site m (writesOf site steps)).byteAt i =
      (m.lay (site.segment place) (imageOf site place steps)).byteAt i := by
  rw [byteAt_applyAll_filter fits others rfl, writesOf_filter, lay_eq_applyAll]

end Overlay

/-! ## No address belongs to two places -/

/-- A range around every place, when private memory lies between the fixed places and the stubs. -/
def Place.hull : Place → Nat × Nat
  | .infoBlock => (0x800, 0x890)
  | .consoleDriver => (0xa00, 0xa12)
  | .consoleNames => (0xa8a, 0xaae)
  | .swappableArea => (0xb20, 0xb3a)
  | .currentDirectory => (0x1080, 0x1084)
  | .leadBytes => (0x1570, 0x1578)
  | .table _ => (0x1580, 0xf1000)
  | .stub => (0xf1000, memorySize)

theorem hull_apart {first second : Place} (different : first ≠ second)
    (notTables : ∀ t u, first = .table t → second ≠ .table u) :
    first.hull.2 ≤ second.hull.1 ∨ second.hull.2 ≤ first.hull.1 := by
  cases first <;> cases second <;> simp_all [Place.hull]

/-- What a machine needs for booting to succeed with its tables apart: a callback number, room for
every request, and private memory between the fixed places and the stubs. -/
structure Bootable (config : Config) (s : System) : Prop where
  free : s.callbacks.nextFree < callbackSlots
  enough : s.privateMemory.next.toNat + (if config.model.isJapanese then 69 else 65) <
    s.privateMemory.limit.toNat
  above : 0x158 ≤ s.privateMemory.next.toNat
  below : s.privateMemory.limit.toNat ≤ 0xf100

section Booted

variable {config : Config} {s final : System}

/-- How far a booting comes that nothing stops. -/
theorem afterAll_bootPlan (site : Site) :
    Progress.start.afterAll (bootPlan site) = ⟨requests site.japanese, true⟩ := by
  unfold bootPlan driverPlan
  cases site.japanese <;> rfl

theorem room_requests (japanese : Bool) :
    room (requests japanese) = if japanese then 69 else 65 := by
  cases japanese <;> decide

theorem Bootable.boots (bootable : Bootable config s) :
    ∃ final, performAll (.of config s) (bootPlan (.of config s)) s = .ok () final := by
  refine performAll_succeeds (bootPlan_orderly _) (reached_start config s) ?_ bootable.free
  rw [afterAll_bootPlan, room_requests]
  exact bootable.enough

theorem reached_booted
    (booted : performAll (.of config s) (bootPlan (.of config s)) s = .ok () final) :
    Reached (.of config s) s.privateMemory.limit ⟨requests config.model.isJapanese, true⟩ final := by
  have reached := (performAll_keeps (bootPlan_orderly _) (reached_start config s) booted).1
  rwa [afterAll_bootPlan] at reached

theorem packed_booted (config : Config) :
    (Progress.mk (requests config.model.isJapanese) true).Packed config.model.isJapanese := by
  cases config.model.isJapanese <;> constructor <;> decide

/-- A place that booting stores in. -/
def Site.Used (site : Site) (place : Place) : Prop :=
  (Progress.mk (requests site.japanese) true).Ready place

theorem toNat_segment_booted (bootable : Bootable config s) {table : PrivateTable}
    (used : (Site.of config s).Used (.table table)) :
    ((Site.of config s).segment (.table table)).toNat =
      s.privateMemory.next.toNat + table.offset config.model.isJapanese := by
  obtain ⟨final, booted⟩ := bootable.boots
  exact toNat_segment_table (reached_booted booted) (packed_booted config) used

theorem owns_hull (bootable : Bootable config s) {place : Place}
    (used : (Site.of config s).Used place) {i : Fin memorySize}
    (owns : (Site.of config s).Owns place i) : place.hull.1 ≤ i ∧ i < place.hull.2 := by
  obtain ⟨window, member, first, last⟩ := owns
  cases place with
  | table table =>
      obtain rfl := List.mem_singleton.1 member
      have held : table.offset config.model.isJapanese + table.paragraphs.toNat ≤
          room (requests config.model.isJapanese) := (packed_booted config).held table used
      have enough := bootable.enough
      rw [← room_requests] at enough
      have above := bootable.above
      have below := bootable.below
      rw [toNat_segment_booted bootable used] at first last
      simp only [Place.hull] at first last ⊢
      omega
  | stub =>
      obtain rfl := List.mem_singleton.1 member
      have offset : (CallbackTable.entry (Site.of config s).number).offset.toNat =
          0x1000 + 32 * s.callbacks.nextFree :=
        CallbackTable.toNat_offset_entry bootable.free
      have segment : (Site.of config s).segment .stub = 0xf000 := rfl
      rw [segment] at first
      simp only [offset, UInt16.reduceToNat] at first
      exact ⟨by simp only [Place.hull]; omega, i.isLt⟩
  | consoleNames =>
      simp only [Site.windows, List.mem_cons, List.not_mem_nil, or_false] at member
      have segment : 16 * ((Site.of config s).segment .consoleNames).toNat = 0xa80 := rfl
      rw [segment] at first last
      unfold Place.hull
      obtain rfl | rfl | rfl := member <;> simp only at first last ⊢ <;> omega
  | _ =>
      obtain rfl := List.mem_singleton.1 member
      exact ⟨first, last⟩

/-- **No address belongs to two places.** -/
theorem places_apart (bootable : Bootable config s) {first second : Place}
    (firstUsed : (Site.of config s).Used first) (secondUsed : (Site.of config s).Used second)
    (different : first ≠ second) {i : Fin memorySize}
    (owns : (Site.of config s).Owns first i) : ¬ (Site.of config s).Owns second i := by
  intro alsoOwns
  -- Two tables are apart by their offsets, any other two places by their hulls.
  by_cases tables : ∃ t u, first = .table t ∧ second = .table u
  · obtain ⟨t, u, rfl, rfl⟩ := tables
    have ordered := apart_of_packed (packed_booted config) firstUsed secondUsed
      (fun same => different (congrArg Place.table same))
    obtain ⟨window, member, low, high⟩ := owns
    obtain ⟨window', member', low', high'⟩ := alsoOwns
    obtain rfl := List.mem_singleton.1 member
    obtain rfl := List.mem_singleton.1 member'
    rw [toNat_segment_booted bootable firstUsed] at low high
    rw [toNat_segment_booted bootable secondUsed] at low' high'
    simp only at low high low' high'
    omega
  · have hulls := hull_apart different fun t u isFirst isSecond =>
      tables ⟨t, u, isFirst, isSecond⟩
    have inFirst := owns_hull bootable firstUsed owns
    have inSecond := owns_hull bootable secondUsed alsoOwns
    omega

/-! ## What places hold -/

/-- After booting, a place is its image laid on what was there before. -/
theorem byteAt_booted (bootable : Bootable config s)
    (booted : performAll (.of config s) (bootPlan (.of config s)) s = .ok () final) {place : Place}
    (used : (Site.of config s).Used place) {i : Fin memorySize}
    (owns : (Site.of config s).Owns place i) :
    final.memory.byteAt i =
      (s.memory.lay ((Site.of config s).segment place) ((Site.of config s).image place)).byteAt
        i := by
  have orderly := bootPlan_orderly (.of config s)
  have stored := fun w (member : w ∈ writesOf (.of config s) (bootPlan (.of config s))) =>
    orderly.writes member
  rw [afterAll_bootPlan] at stored
  rw [(performAll_keeps orderly (reached_start config s) booted).2, ← imageOf_bootPlan]
  apply byteAt_writesOf (fun w member => (stored w member).2)
  exact fun w member other =>
    places_apart bootable used (stored w member).1 (Ne.symm other) owns

/-- After booting, a place holds what its image says about a stretch of one of its windows. -/
theorem holds_booted (bootable : Bootable config s)
    (booted : performAll (.of config s) (bootPlan (.of config s)) s = .ok () final) (place : Place)
    (used : (Site.of config s).Used place) {offset : UInt16} {bytes : List UInt8}
    {window : Nat × Nat} (member : window ∈ (Site.of config s).windows place)
    (low : window.1 ≤ offset.toNat) (high : offset.toNat + bytes.length ≤ window.2)
    (reads : ((Site.of config s).image place).Reads offset.toNat bytes) :
    final.memory.Holds ⟨(Site.of config s).segment place, offset⟩ bytes := by
  have start : (FarPointer.mk ((Site.of config s).segment place) offset).physical.toNat =
      16 * ((Site.of config s).segment place).toNat + offset.toNat :=
    FarPointer.toNat_physical _
  have small := ((Site.of config s).segment place).toNat_lt
  have windowBound := window_le member
  have inside : (FarPointer.mk ((Site.of config s).segment place) offset).physical.toNat +
      bytes.length ≤ memorySize := by
    unfold memorySize
    omega
  have fits : ((Site.of config s).image place).FitsIn 0x10000 := by
    intro field member
    rw [← imageOf_bootPlan] at member
    exact ((bootPlan_orderly _).writes (mem_writesOf member)).2.finish_le
  refine Memory.Holds.congr inside ?_ (Memory.holds_lay (m := s.memory) fits reads inside)
  intro k bound
  apply byteAt_booted bootable booted used
  exact ⟨window, member, by simp only; omega, by simp only; omega⟩

end Booted

end GuestDos.Kernel
