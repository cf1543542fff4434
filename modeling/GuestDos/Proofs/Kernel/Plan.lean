/-
# GuestDos.Proofs.Kernel.Plan -- booting as a list of steps

Which step booting takes next never depends on what it finds in memory, and every segment it uses
is known before it starts: a private table lies past the tables requested before it.  So booting is
a list of steps for a site (`bootPlan`), and everything about its order can be read off a list.

* `PrivateTable`, `requests`, `PrivateTable.offset` -- the private tables, in order of request.
* `Place`, `Site.segment` -- what is stored anywhere, and in which segment.
* `BootStep`, `performAll` -- a step, and what it does to a system.
* `setupTables_eq_plan` -- laying out the kernel tables is performing the plan.
-/
import Mathlib.Algebra.GroupWithZero.Nat
import GuestDos.Kernel.Boot

namespace GuestDos.Kernel

set_option autoImplicit false

open GuestDos.Machine (FarPointer Memory Field Image)
open Boot

/-! ## What is laid out where -/

/-- What paragraphs of private memory are requested for. -/
inductive PrivateTable where
  | mediaIds
  | transferArea
  | deletionTransferArea
  | ibmAdsp
  | startupInfo
  | fileNameChars
  | collation
  | fileTable
  | driveParameters
  | devicePacket
  | diskBuffer
  | country
  | longNameArea
deriving DecidableEq, Repr

namespace PrivateTable

def paragraphs : PrivateTable → UInt16
  | mediaIds => Tables.mediaIdParagraphs
  | transferArea | deletionTransferArea => Tables.transferAreaParagraphs
  | ibmAdsp => Tables.ibmAdspParagraphs
  | startupInfo => Tables.startupInfoParagraphs
  | fileNameChars => Tables.fileNameCharsParagraphs
  | collation => Tables.collationParagraphs
  | fileTable => Tables.fileTableParagraphs
  | driveParameters => Tables.driveParametersParagraphs
  | devicePacket => Tables.devicePacketParagraphs
  | diskBuffer => Tables.diskBufferParagraphs
  | country => Tables.countryParagraphs
  | longNameArea => Tables.longNameAreaParagraphs

end PrivateTable

/-- The requests for private memory in their order; two of them only the Japanese models make. -/
def requests (japanese : Bool) : List PrivateTable :=
  [.mediaIds, .transferArea, .deletionTransferArea]
    ++ (if japanese then [.ibmAdsp, .startupInfo] else [])
    ++ [.fileNameChars, .collation, .fileTable, .driveParameters, .devicePacket, .diskBuffer,
      .country, .longNameArea]

/-- The paragraphs that requests take together. -/
def room (tables : List PrivateTable) : Nat :=
  (tables.map fun table => table.paragraphs.toNat).sum

/-- The paragraphs that are taken before a table's. -/
def PrivateTable.offset (japanese : Bool) (table : PrivateTable) : Nat :=
  room ((requests japanese).takeWhile (· ≠ table))

/-- What booting stores bytes in. -/
inductive Place where
  | infoBlock
  | swappableArea
  | consoleNames
  | consoleDriver
  | currentDirectory
  | leadBytes
  /-- The stub of the case map routine. -/
  | stub
  | table (table : PrivateTable)
deriving DecidableEq, Repr

/-- What decides where booting stores what: the configuration, the first free paragraph, and the
first free callback number. -/
structure Site where
  config : Config
  base : UInt16
  nextFree : Nat

namespace Site

/-- The site of a system that is about to boot. -/
def of (config : Config) (s : System) : Site :=
  ⟨config, s.privateMemory.next, s.callbacks.nextFree⟩

def japanese (site : Site) : Bool :=
  site.config.model.isJapanese

/-- The callback number of the case map routine. -/
def number (site : Site) : UInt16 :=
  UInt16.ofNat site.nextFree

/-- The segment of a place. -/
def segment (site : Site) : Place → UInt16
  | .infoBlock => Layout.infoBlockSegment
  | .swappableArea => Layout.swappableAreaSegment
  | .consoleNames => Layout.consoleNamesSegment
  | .consoleDriver => Layout.consoleDriverSegment
  | .currentDirectory => Layout.currentDirectorySegment
  | .leadBytes => Layout.leadByteTable.segment
  | .stub => (CallbackTable.entry site.number).segment
  | .table table => site.base + UInt16.ofNat (table.offset site.japanese)

/-- The far pointer to a private table. -/
def pointer (site : Site) (table : PrivateTable) : FarPointer :=
  .ofSegment (site.segment (.table table))

end Site

/-! ## Steps -/

/-- One step of booting. -/
inductive BootStep where
  /-- Asks for the paragraphs of a table. -/
  | reserve (table : PrivateTable)
  /-- Stores the fields of an image at the segment of a place. -/
  | lay (place : Place) (image : Image)
  /-- Installs the case map routine under a number of its own. -/
  | install

/-- What a step does. -/
def BootStep.perform (site : Site) : BootStep → Boot Unit
  | reserve table => Boot.reserve table.paragraphs >>= fun _ => pure ()
  | lay place image => Boot.lay (site.segment place) image
  | install =>
      allocateCallback >>= fun number => installCallback number caseMapRoutine >>= fun _ => pure ()

/-- Performs steps until one fails. -/
def performAll (site : Site) : List BootStep → Boot Unit
  | [] => pure ()
  | step :: rest => step.perform site >>= fun _ => performAll site rest

/-- Points a field of the info block to the segment of a place. -/
def BootStep.link (site : Site) (field : InfoBlock.PointerField) (place : Place) : BootStep :=
  lay .infoBlock [.pointer field.offset (.ofSegment (site.segment place))]

/-- Media ids, info block, swappable data area and console names. -/
def openingPlan : List BootStep :=
  [ .reserve .mediaIds,
    .reserve .transferArea,
    .reserve .deletionTransferArea,
    .lay (.table .mediaIds) Tables.mediaIds,
    .lay .infoBlock InfoBlock.bootImage,
    .lay .swappableArea [.zeros 0 swappableAreaSize, .byte 2 0xff],
    .lay .consoleNames Tables.consoleNames ]

/-- The steps that only the Japanese models take. -/
def japanesePlan (site : Site) : List BootStep :=
  [ .reserve .ibmAdsp,
    .lay (.table .ibmAdsp) Tables.ibmAdsp,
    .reserve .startupInfo,
    .lay (.table .startupInfo) (Tables.startupInfo (site.segment (.table .startupInfo))),
    .link site .deviceChain (.table .ibmAdsp) ]

/-- The chain of drivers. -/
def driverPlan (site : Site) : List BootStep :=
  (if site.japanese then japanesePlan site else [])
    ++ [.lay .consoleDriver Tables.consoleDriver]
    ++ (if site.japanese then [] else [.link site .deviceChain .consoleDriver])

/-- What is laid out after the drivers. -/
def closingPlan (site : Site) : List BootStep :=
  [ .lay .currentDirectory Tables.currentDirectory,
    .link site .currentDirectory .currentDirectory,
    .lay .leadBytes
      (if site.config.setAx || site.japanese then Tables.leadBytes else Tables.noLeadBytes),
    .reserve .fileNameChars,
    .lay (.table .fileNameChars) Tables.fileNameChars,
    .reserve .collation,
    .lay (.table .collation) Tables.collation,
    .reserve .fileTable,
    .lay (.table .fileTable) Tables.fileTable,
    .link site .fcbTable (.table .fileTable),
    .reserve .driveParameters,
    .lay (.table .driveParameters) Tables.driveParameters,
    .reserve .devicePacket,
    .reserve .diskBuffer,
    .lay (.table .diskBuffer) Tables.diskBuffer,
    .link site .diskBufferHead (.table .diskBuffer),
    .lay .infoBlock
      [ .word InfoBlock.bufferOffsets.1 Tables.bufferCount,
        .word InfoBlock.bufferOffsets.2 Tables.bufferCount ],
    .install,
    .reserve .country,
    .lay (.table .country) (Tables.country site.config (CallbackTable.entry site.number)),
    .reserve .longNameArea ]

/-- The steps of booting at a site. -/
def bootPlan (site : Site) : List BootStep :=
  openingPlan ++ driverPlan site ++ closingPlan site

/-- The segments of what only the Japanese models have. -/
def Site.japaneseSegments (site : Site) : Option (UInt16 × UInt16) :=
  if site.japanese then some (site.segment (.table .ibmAdsp), site.segment (.table .startupInfo))
  else none

/-- Where the tables of a site are. -/
def Site.tables (site : Site) : KernelTables where
  infoBlock := ⟨Layout.infoBlockSegment⟩
  mediaIds := site.pointer .mediaIds
  transferArea := site.pointer .transferArea
  deletionTransferArea := site.pointer .deletionTransferArea
  leadBytes := Layout.leadByteTable
  fileNameChars := site.pointer .fileNameChars
  collation := site.pointer .collation
  upperCase := (site.pointer .collation).advance Tables.upperCaseOffset
  fileTable := site.pointer .fileTable
  driveParameters := site.segment (.table .driveParameters)
  devicePacket := site.segment (.table .devicePacket)
  diskBuffer := site.pointer .diskBuffer
  country := site.segment (.table .country)
  caseMap := CallbackTable.entry site.number
  longNameArea := site.segment (.table .longNameArea)
  japanese := site.japaneseSegments

/-! ## The steps on their own -/

section Steps

variable {α : Type} {s : System}

theorem reserve_of_room {paragraphs : UInt16}
    (enough : paragraphs.toNat + s.privateMemory.next.toNat < s.privateMemory.limit.toNat) :
    reserve paragraphs s = .ok s.privateMemory.next
      { s with privateMemory := ⟨s.privateMemory.next + paragraphs, s.privateMemory.limit⟩ } := by
  have served := (PrivateMemory.take_eq_ok_iff _ _ _ _).2 ⟨enough, rfl, rfl⟩
  unfold reserve
  rw [served]

theorem reserve_of_no_room {paragraphs : UInt16}
    (full : ¬ paragraphs.toNat + s.privateMemory.next.toNat < s.privateMemory.limit.toNat) :
    reserve paragraphs s =
      .error (.outOfTableMemory paragraphs s.privateMemory.next s.privateMemory.limit) s := by
  have refused : s.privateMemory.take paragraphs =
      .error (.outOfTableMemory paragraphs s.privateMemory.next s.privateMemory.limit) :=
    if_pos (Nat.le_of_not_lt full)
  unfold reserve
  rw [refused]

/-- A program goes on after a step that succeeded. -/
theorem bind_of_ok {β : Type} {x : Boot β} {k : β → Boot α} {result : β} {next : System}
    (done : x s = .ok result next) : (x >>= k) s = k result next := by
  show EStateM.bind _ _ s = _
  unfold EStateM.bind
  rw [done]

/-- A program ends with a step that failed. -/
theorem bind_of_error {β : Type} {x : Boot β} {k : β → Boot α} {failure : KernelError}
    {next : System} (failed : x s = .error failure next) :
    (x >>= k) s = .error failure next := by
  show EStateM.bind _ _ s = _
  unfold EStateM.bind
  rw [failed]

theorem install_caseMap_of_free {k : FarPointer → Boot α}
    (free : s.callbacks.nextFree < callbackSlots) :
    (allocateCallback >>= fun number => installCallback number caseMapRoutine >>= k) s =
      k (CallbackTable.entry (UInt16.ofNat s.callbacks.nextFree))
        { s with
          callbacks := s.callbacks.installNext caseMapRoutine free
          memory := s.memory.writeBlock
            (CallbackTable.entry (UInt16.ofNat s.callbacks.nextFree)).physical
            (CallbackTable.stub (UInt16.ofNat s.callbacks.nextFree)) } := by
  have handed : allocateCallback s = .ok (UInt16.ofNat s.callbacks.nextFree)
      { s with callbacks := s.callbacks.handOut s.callbacks.nextFree free } := by
    unfold allocateCallback
    rw [CallbackTable.allocate_of_free free]
  rw [bind_of_ok handed]
  apply bind_of_ok
  unfold installCallback
  rw [CallbackTable.install_next]

theorem install_caseMap_of_full {k : FarPointer → Boot α}
    (full : ¬ s.callbacks.nextFree < callbackSlots) :
    (allocateCallback >>= fun number => installCallback number caseMapRoutine >>= k) s =
      .error .noFreeCallbacks s := by
  apply bind_of_error
  unfold allocateCallback
  rw [CallbackTable.allocate_of_full full]

end Steps

/-! ## Laying out the kernel tables is performing the plan -/

/-- Two programs do the same from every system with `taken` paragraphs of the site's private memory
gone, and the site's callback number as long as the routine is not installed. -/
def AgreeAt {α : Type} (site : Site) (taken : Nat) (installed : Bool) (x y : Boot α) : Prop :=
  ∀ s : System, s.privateMemory.next = site.base + UInt16.ofNat taken →
    (installed = false → s.callbacks.nextFree = site.nextFree) → x s = y s

section Agree

variable {α : Type} {site : Site} {taken : Nat} {installed : Bool} {rest : List BootStep}
  {finish : Unit → Boot α}

theorem agree_reserve {paragraphs : UInt16} {table : PrivateTable} {k : UInt16 → Boot α}
    (asked : paragraphs = table.paragraphs)
    (offset : table.offset site.japanese = taken)
    (same : AgreeAt site (taken + table.paragraphs.toNat) installed (k (site.segment (.table table)))
      (performAll site rest >>= finish)) :
    AgreeAt site taken installed (reserve paragraphs >>= k)
      (performAll site (.reserve table :: rest) >>= finish) := by
  subst asked
  intro s cursor fresh
  have here : site.segment (.table table) = s.privateMemory.next := by
    rw [cursor, Site.segment, offset]
  simp only [performAll, BootStep.perform, bind_assoc, pure_bind]
  by_cases enough : table.paragraphs.toNat + s.privateMemory.next.toNat <
      s.privateMemory.limit.toNat
  · rw [bind_of_ok (reserve_of_room enough), bind_of_ok (reserve_of_room enough), ← here]
    apply same
    · show site.segment (.table table) + table.paragraphs = _
      rw [here, cursor, UInt16.ofNat_add, UInt16.ofNat_toNat, UInt16.add_assoc]
    · exact fresh
  · rw [bind_of_error (reserve_of_no_room enough), bind_of_error (reserve_of_no_room enough)]

theorem agree_onMemory {place : Place} {image : Image} {change : Memory → Memory}
    {k : Unit → Boot α} (change_eq : ∀ m, change m = m.lay (site.segment place) image)
    (same : AgreeAt site taken installed (k ()) (performAll site rest >>= finish)) :
    AgreeAt site taken installed (onMemory change >>= k)
      (performAll site (.lay place image :: rest) >>= finish) := by
  intro s cursor fresh
  have laid : change = fun m => m.lay (site.segment place) image := funext change_eq
  rw [laid]
  exact same _ cursor fresh

theorem agree_install {k : FarPointer → Boot α}
    (same : AgreeAt site taken true (k (CallbackTable.entry site.number))
      (performAll site rest >>= finish)) :
    AgreeAt site taken false
      (allocateCallback >>= fun number => installCallback number caseMapRoutine >>= k)
      (performAll site (.install :: rest) >>= finish) := by
  intro s cursor fresh
  simp only [performAll, BootStep.perform, bind_assoc, pure_bind]
  by_cases free : s.callbacks.nextFree < callbackSlots
  · have entry_eq : CallbackTable.entry (UInt16.ofNat s.callbacks.nextFree) =
        CallbackTable.entry site.number := by
      rw [fresh rfl, Site.number]
    rw [install_caseMap_of_free free, install_caseMap_of_free free, entry_eq]
    exact same _ cursor fun notYet => nomatch notYet
  · rw [install_caseMap_of_full free, install_caseMap_of_full free]

theorem agree_done {result : α} :
    AgreeAt site taken installed (pure result) (performAll site [] >>= fun _ => pure result) :=
  fun _ _ _ => rfl

/-- The paragraphs that only the Japanese models take. -/
def japaneseRoom (site : Site) : Nat :=
  if site.japanese then 4 else 0

/-- The Japanese steps inside the plan. -/
theorem agree_japanese {k : Option (UInt16 × UInt16) → Boot α}
    (same : AgreeAt site (12 + japaneseRoom site) installed (k site.japaneseSegments)
      (performAll site rest >>= finish)) :
    AgreeAt site 12 installed
      (if site.config.model.isJapanese = true
        then (some <$> setupJapanese ⟨Layout.infoBlockSegment⟩) >>= k
        else pure none >>= k)
      (performAll site ((if site.japanese then japanesePlan site else []) ++ rest) >>= finish) := by
  unfold japaneseRoom Site.japaneseSegments at same
  cases japanese : site.config.model.isJapanese with
  | false =>
      have plain : site.japanese = false := japanese
      rw [plain] at same ⊢
      exact same
  | true =>
      have full : site.japanese = true := japanese
      rw [full] at same ⊢
      simp only [setupJapanese, map_bind, map_pure, bind_assoc, pure_bind, if_true] at same ⊢
      refine agree_reserve rfl (by rw [full]; decide) ?_
      refine agree_onMemory (fun _ => rfl) ?_
      refine agree_reserve rfl (by rw [full]; decide) ?_
      refine agree_onMemory (fun _ => rfl) ?_
      exact agree_onMemory (fun _ => rfl) same

/-- The step that only the other models take. -/
theorem agree_plain {place : Place} {image : Image} {change : Memory → Memory}
    {k : Unit → Boot α} (change_eq : ∀ m, change m = m.lay (site.segment place) image)
    (same : AgreeAt site taken installed (k ()) (performAll site rest >>= finish)) :
    AgreeAt site taken installed
      (if (!site.config.model.isJapanese) = true then onMemory change >>= k else k ())
      (performAll site ((if site.japanese then [] else [.lay place image]) ++ rest) >>= finish) := by
  cases japanese : site.japanese with
  | false =>
      have plain : site.config.model.isJapanese = false := japanese
      rw [plain]
      exact agree_onMemory change_eq same
  | true =>
      have notPlain : site.config.model.isJapanese = true := japanese
      rw [notPlain]
      exact same

end Agree

theorem initSwappableArea_eq_lay (m : Memory) :
    initSwappableArea Layout.swappableArea m =
      m.lay Layout.swappableAreaSegment [.zeros 0 swappableAreaSize, .byte 2 0xff] := by
  unfold initSwappableArea
  rw [Memory.fill_eq_writeBlock]
  rfl

/-- Laying out the kernel tables is performing the plan of the site, whether it fails or not. -/
theorem setupTables_eq_plan (config : Config) (s : System) :
    setupTables config s =
      (performAll (.of config s) (bootPlan (.of config s)) >>= fun _ =>
        pure (Site.of config s).tables) s := by
  have agree : AgreeAt (.of config s) 0 false (setupTables config)
      (performAll (.of config s) (bootPlan (.of config s)) >>= fun _ =>
        pure (Site.of config s).tables) := by
    simp only [bootPlan, openingPlan, driverPlan, closingPlan, List.append_assoc,
      List.cons_append, List.nil_append]
    generalize site_eq : Site.of config s = site
    have config_eq : config = site.config := by rw [← site_eq]; rfl
    rw [config_eq]
    unfold setupTables
    -- Step by step on both sides; a request is known by the paragraphs taken before it.
    refine agree_reserve rfl (by cases site.japanese <;> decide) ?_
    refine agree_reserve rfl (by cases site.japanese <;> decide) ?_
    refine agree_reserve rfl (by cases site.japanese <;> decide) ?_
    refine agree_onMemory (fun _ => rfl) ?_
    refine agree_onMemory (fun _ => rfl) ?_
    refine agree_onMemory initSwappableArea_eq_lay ?_
    refine agree_onMemory (fun _ => rfl) ?_
    refine agree_japanese ?_
    refine agree_onMemory (fun _ => rfl) ?_
    refine agree_plain (fun _ => rfl) ?_
    refine agree_onMemory (fun _ => rfl) ?_
    refine agree_onMemory (fun _ => rfl) ?_
    refine agree_onMemory (fun _ => rfl) ?_
    refine agree_reserve rfl (by unfold japaneseRoom; cases site.japanese <;> decide) ?_
    refine agree_onMemory (fun _ => rfl) ?_
    refine agree_reserve rfl (by unfold japaneseRoom; cases site.japanese <;> decide) ?_
    refine agree_onMemory (fun _ => rfl) ?_
    refine agree_reserve rfl (by unfold japaneseRoom; cases site.japanese <;> decide) ?_
    refine agree_onMemory (fun _ => rfl) ?_
    refine agree_onMemory (fun _ => rfl) ?_
    refine agree_reserve rfl (by unfold japaneseRoom; cases site.japanese <;> decide) ?_
    refine agree_onMemory (fun _ => rfl) ?_
    refine agree_reserve rfl (by unfold japaneseRoom; cases site.japanese <;> decide) ?_
    refine agree_reserve rfl (by unfold japaneseRoom; cases site.japanese <;> decide) ?_
    refine agree_onMemory (fun _ => rfl) ?_
    refine agree_onMemory (fun _ => rfl) ?_
    refine agree_onMemory (fun _ => rfl) ?_
    refine agree_install ?_
    refine agree_reserve rfl (by unfold japaneseRoom; cases site.japanese <;> decide) ?_
    refine agree_onMemory (fun _ => rfl) ?_
    refine agree_reserve rfl (by unfold japaneseRoom; cases site.japanese <;> decide) ?_
    exact agree_done
  exact agree s (UInt16.add_zero _).symm fun _ => rfl

end GuestDos.Kernel
