/-
# GuestDos.Main -- the command line program

Asks the host for what a command needs, and prints what the command reports.  A usage error ends
with status 2, a failure with status 1.
-/
import GuestDos.CommandLine.Report
import GuestDos.Host.Home

namespace GuestDos

set_option autoImplicit false

open GuestDos.CommandLine (Command Invocation directoryReport tablesReport)
open GuestDos.Host (DirEntry HostError Kind Name View childPath)

/-- The cause of a failed call on the host. -/
def hostError : IO.Error → HostError
  | .noFileOrDirectory .. => .notFound
  | .permissionDenied .. => .permissionDenied
  | .alreadyExists .. => .alreadyExists
  | .inappropriateType .. => .notADirectory
  | _ => .other

/-- What a path leads to, links followed. -/
def statPath (path : Text) : IO (Except HostError Kind) := do
  let here ← IO.currentDir
  try
    let metadata ← (here / String.ofList path).metadata
    return .ok (match metadata.type with
      | .dir => .directory
      | _ => .file)
  catch e => return .error (hostError e)

/-- The entries of a directory.  Each one is a link as far as the listing knows, so that the host
decides what it leads to. -/
def listPath (path : Text) : IO (Except HostError (List DirEntry)) := do
  let here ← IO.currentDir
  try
    let entries ← (here / String.ofList path).readDir
    return .ok (entries.toList.map fun entry => ⟨.text entry.fileName.toList, .link⟩)
  catch e => return .error (hostError e)

/-- What the host shows of one directory now. -/
def viewDirectory (path : Text) : IO View := do
  let stat ← statPath path
  let entries ← listPath path
  let listed := match entries with
    | .ok listed => listed
    | .error _ => []
  let children ← listed.filterMapM fun entry => do
    match entry.name with
    | .text name =>
        let child := childPath path name
        return some (child, ← statPath child)
    | .raw _ => return none
  return {
    stat := fun asked =>
      if asked = path then stat else (children.lookup asked).getD (.error .notFound)
    openDirectory := fun _ => entries.map fun _ => 0
    items := fun _ => listed.map .ok }

/-- Makes a directory that only its owner may use; it may be there already. -/
def makePrivateDirectory (path : String) : IO Unit := do
  try
    IO.FS.createDir path
    IO.setAccessRights path ⟨⟨true, true, true⟩, {}, {}⟩
  catch _ => return ()

/-- Prints a report, or its failure. -/
def finish : Except String (List String) → IO UInt32
  | .ok lines => do
      for line in lines do
        IO.println line
      return 0
  | .error text => do
      IO.eprintln text
      return 1

/-- Does what a command line asks for. -/
def run : Command → IO UInt32
  | .directory path codePage hostShortNames => do
      let host ← viewDirectory path
      finish ((directoryReport host path codePage hostShortNames).map (·.map String.ofList))
  | .tables model codePage setAx => finish (tablesReport model codePage setAx)
  | .configLocation => do
      let home := (← IO.getEnv "HOME").map String.toList
      makePrivateDirectory (String.ofList (Host.configDirectoryToMake home))
      finish (.ok [String.ofList (Host.configFile home)])

end GuestDos

/-- The program: status 2 without output if the arguments cannot be read. -/
def main (arguments : List String) : IO UInt32 :=
  match GuestDos.CommandLine.Invocation.parse arguments with
  | some invocation => GuestDos.run invocation.command
  | none => return 2
