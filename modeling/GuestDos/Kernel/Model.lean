/-
# GuestDos.Kernel.Model -- the machines that can be booted, and what they imply

* `MachineModel.ofName?` reads the name of a model, without regard to ASCII case.
* `Config.ofModel` is the configuration that a model brings along.

Init only.
-/
namespace GuestDos.Kernel

set_option autoImplicit false

/-- The machine whose kernel tables are built. -/
inductive MachineModel where
  | ibm
  /-- The Japanese AX architecture. -/
  | ax
  /-- Toshiba J-3100. -/
  | j3100
  /-- IBM DOS/V double byte mode. -/
  | dosV
deriving DecidableEq, Repr

namespace MachineModel

instance : Inhabited MachineModel := ⟨.ibm⟩

/-- Models with the Japanese console driver and start-up information. -/
def isJapanese : MachineModel → Bool
  | ibm | ax => false
  | j3100 | dosV => true

/-- J-3100 and DOS/V are the Japanese models; AX is not one of them. -/
theorem isJapanese_iff {model : MachineModel} :
    model.isJapanese = true ↔ model = j3100 ∨ model = dosV := by
  cases model <;> simp [isJapanese]

/-- Models that run AX software in its own code page and country. -/
def isAxFamily : MachineModel → Bool
  | ibm => false
  | ax | j3100 | dosV => true

/-- The code page that a model brings along. -/
def defaultCodePage (model : MachineModel) : UInt16 :=
  if model.isAxFamily then 932 else 437

/-- The country that a model brings along, by its telephone code. -/
def countryCode (model : MachineModel) : UInt16 :=
  if model.isAxFamily then 81 else 1

/-- The model that a name stands for, in any ASCII case. -/
def ofName? (name : String) : Option MachineModel :=
  match String.ofList (name.toList.map Char.toLower) with
  | "ibm" | "vga" => some ibm
  | "ax" | "jega" => some ax
  | "j3" | "j3100" => some j3100
  | "dosv" => some dosV
  | _ => none

/-- The text shown for a name that stands for no model. -/
def unknownNameMessage (name : String) : String :=
  "Unknown machine type: " ++ name

end MachineModel

/-- What the kernel tables depend on. -/
structure Config where
  model : MachineModel
  /-- Installs the double byte lead table on a machine that would not have it, for AX software. -/
  setAx : Bool
  codePage : UInt16
deriving DecidableEq, Repr

/-- The configuration that a model brings along. -/
def Config.ofModel (model : MachineModel) : Config :=
  ⟨model, false, model.defaultCodePage⟩

instance : Inhabited Config := ⟨Config.ofModel default⟩

end GuestDos.Kernel
