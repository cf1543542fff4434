/-
# GuestDos.Host.Tree -- a host file system held in memory

Files, directories and symbolic links under numbers, a directory knowing its parent, so that `..`
after a link leads to the parent of where the link led.  Paths resolve as on the host: component by
component, each in a directory, with a limit on the links that are followed.

* `Tree.resolve` -- the node that a path leads to, links followed.
* `makeDirectory`, `makeFile`, `makeLink`, `remove` -- changes.
* `Tree.view` -- what a listing sees of the tree.

Init only.
-/
import GuestDos.Host.View

namespace GuestDos.Host

set_option autoImplicit false

/-- A node of the tree.  `mode` holds the permission bits. -/
inductive Node where
  | file (mode : Nat)
  | link (target : Text)
  | directory (mode parent : Nat) (entries : List (Name × Nat))
deriving DecidableEq, Repr

/-- Nodes by number; paths that are not absolute start at `current`. -/
structure Tree where
  nodes : Array Node
  root : Nat
  current : Nat
deriving DecidableEq, Repr

/-- The links that are followed on one path before the host gives up. -/
def maxLinks : Nat := 40

/-- The most bytes of a component that the host accepts. -/
def maxNameBytes : Nat := 255

/-- The most bytes of a whole path that the host accepts. -/
def maxPathBytes : Nat := 4095

/-- The bytes that a text takes in UTF-8. -/
def utf8Size (text : Text) : Nat :=
  text.foldr (fun c size => c.utf8Size + size) 0

/-- The components of a path; slashes in a row have empty components between them. -/
def components : Text → List Text
  | [] => [[]]
  | c :: rest =>
      if c = '/' then [] :: components rest
      else match components rest with
        | first :: others => (c :: first) :: others
        | [] => [[c]]

/-- Refuses what no call of the host accepts as a path. -/
def checkPath (path : Text) : Except HostError Unit :=
  if path.contains (Char.ofNat 0) then .error .invalidPath
  else if path.isEmpty then .error .notFound
  else if maxPathBytes < utf8Size path then .error .nameTooLong
  else .ok ()

namespace Tree

/-- A root with one empty directory in it, which is the current one. -/
def start : Tree :=
  ⟨#[.directory 0o755 0 [(.text "work".toList, 1)], .directory 0o755 0 []], 0, 1⟩

/-- Where a path starts. -/
def startOf (t : Tree) (directory : Nat) : Text → Nat
  | '/' :: _ => t.root
  | _ => directory

/-- Follows components from a node.  `follow` takes over at a link: it gets the directory that holds
the link, the link's target, and the components after it. -/
def walkWith (t : Tree) (follow : Nat → Text → List Text → Except HostError Nat) :
    Nat → List Text → Except HostError Nat
  | node, [] => .ok node
  | node, component :: rest =>
      match t.nodes[node]? with
      | some (.directory _ parent entries) =>
          if component = [] ∨ component = ['.'] then walkWith t follow node rest
          else if component = ['.', '.'] then walkWith t follow parent rest
          else if maxNameBytes < utf8Size component then .error .nameTooLong
          else match entries.lookup (Name.text component) with
            | none => .error .notFound
            | some child =>
                match t.nodes[child]? with
                | some (.link target) => follow node target rest
                | _ => walkWith t follow child rest
      | _ => .error .notADirectory

/-- Follows components from a node and at most `links` links on the way. -/
def walk (t : Tree) : (links : Nat) → Nat → List Text → Except HostError Nat
  | 0 => t.walkWith fun _ _ _ => .error .linkLoop
  | links + 1 => t.walkWith fun node target rest =>
      t.walk links (t.startOf node target) (components target ++ rest)

/-- The node that a path leads to, links followed. -/
def resolve (t : Tree) (path : Text) : Except HostError Nat := do
  checkPath path
  t.walk maxLinks (t.startOf t.current path) (components path)

/-- What a node is. -/
def kindOf (t : Tree) (node : Nat) : Kind :=
  match t.nodes[node]? with
  | some (.directory ..) => .directory
  | some (.link _) => .link
  | _ => .file

/-- The permission bits of a node. -/
def modeOf (t : Tree) (node : Nat) : Nat :=
  match t.nodes[node]? with
  | some (.directory mode _ _) => mode
  | some (.file mode) => mode
  | _ => 0o777

/-- The entries of a directory node, the newest first. -/
def entriesOf (t : Tree) (node : Nat) : List (Name × Nat) :=
  match t.nodes[node]? with
  | some (.directory _ _ entries) => entries
  | _ => []

/-- The same tree with other entries in a directory. -/
def withEntries (t : Tree) (node : Nat) (entries : List (Name × Nat)) : Tree :=
  match t.nodes[node]? with
  | some (.directory mode parent _) =>
      { t with nodes := t.nodes.setIfInBounds node (.directory mode parent entries) }
  | _ => t

/-! ## Changes -/

/-- The directory in which the last component of a path is looked up, and that component; a path that
is not absolute starts at `directory`.  Slashes at the end of the path do not count. -/
def locateFrom (t : Tree) (directory : Nat) (path : Text) : Except HostError (Nat × Text) := do
  checkPath path
  let parts := components (path.reverse.dropWhile (· = '/')).reverse
  let above ← t.walk maxLinks (t.startOf directory path) parts.dropLast
  match t.kindOf above with
  | .directory => pure (above, parts.getLast?.getD [])
  | _ => .error .notADirectory

/-- The directory in which the last component of a path is looked up, and that component. -/
def locate (t : Tree) (path : Text) : Except HostError (Nat × Text) :=
  t.locateFrom t.current path

/-- Adds an entry with a new node to a directory; it is listed before the older ones. -/
def insert (t : Tree) (directory : Nat) (name : Name) (node : Node) : Except HostError Tree :=
  let entries := t.entriesOf directory
  if (entries.lookup name).isSome then .error .alreadyExists
  else
    let added : Tree := { t with nodes := t.nodes.push node }
    .ok (added.withEntries directory ((name, t.nodes.size) :: entries))

/-- Adds an entry to a directory under a name that the host accepts. -/
def insertIn (t : Tree) (directory : Nat) (name : Text) (node : Node) : Except HostError Tree :=
  if name = [] ∨ name = ['.'] ∨ name = ['.', '.'] then .error .alreadyExists
  else if maxNameBytes < utf8Size name then .error .nameTooLong
  else t.insert directory (.text name) node

/-- Adds an entry at a path whose last component is not there yet. -/
def insertAt (t : Tree) (path : Text) (node : Nat → Node) : Except HostError Tree := do
  let (directory, name) ← t.locate path
  t.insertIn directory name (node directory)

/-- Makes one directory. -/
def makeDirectory (t : Tree) (path : Text) (mode : Nat) : Except HostError Tree :=
  t.insertAt path fun parent => .directory mode parent []

/-- Refuses a path that can only name a directory. -/
def checkNotDirectoryPath (path : Text) : Except HostError Unit :=
  if path.getLast? = some '/' then .error .other else .ok ()

/-- Makes a file at a path that starts at a directory; where a link leads nowhere yet, the file is
made there, after at most `links` links. -/
def makeFileFrom (t : Tree) (mode : Nat) :
    (links : Nat) → (directory : Nat) → (path : Text) → Except HostError Tree
  | links, directory, path => do
      checkNotDirectoryPath path
      let (above, name) ← t.locateFrom directory path
      match (t.entriesOf above).lookup (Name.text name) with
      | none => t.insertIn above name (.file mode)
      | some child =>
          match t.nodes[child]?, links with
          | some (.link target), links + 1 => t.makeFileFrom mode links above target
          | some (.link _), 0 => .error .linkLoop
          | _, _ => .error .alreadyExists

/-- Makes a file. -/
def makeFile (t : Tree) (path : Text) (mode : Nat) : Except HostError Tree :=
  t.makeFileFrom mode maxLinks t.current path

/-- Makes a symbolic link. -/
def makeLink (t : Tree) (path target : Text) : Except HostError Tree := do
  checkPath target
  checkNotDirectoryPath path
  t.insertAt path fun _ => .link target

/-- Empties a directory node and every directory below it, down to a depth. -/
def purge : (depth : Nat) → Tree → Nat → Tree
  | 0, t, _ => t
  | depth + 1, t, node =>
      (t.entriesOf node).foldl (fun t entry => purge depth t entry.2) (t.withEntries node [])

/-- Removes an entry and, if it is a directory, everything in it. -/
def remove (t : Tree) (path : Text) : Except HostError Tree := do
  let (directory, name) ← t.locate path
  let entries := t.entriesOf directory
  match entries.lookup (Name.text name) with
  | none => .error .notFound
  | some node =>
      let without := entries.filter (·.1 ≠ Name.text name)
      pure (purge t.nodes.size (t.withEntries directory without) node)

/-! ## What is seen of it -/

/-- What a path leads to, links followed, and its permission bits. -/
def stat (t : Tree) (path : Text) : Except HostError (Kind × Nat) := do
  let node ← t.resolve path
  pure (t.kindOf node, t.modeOf node)

/-- What a listing sees of the tree. -/
def view (t : Tree) : View where
  stat path := (t.stat path).map (·.1)
  openDirectory path := do
    let node ← t.resolve path
    match t.kindOf node with
    | .directory => pure node
    | _ => .error .notADirectory
  items node := (t.entriesOf node).map fun (name, child) => .ok ⟨name, t.kindOf child⟩

end Tree

end GuestDos.Host
