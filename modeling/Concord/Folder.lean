import Concord.Files

/-!
# Folders

A file system given in full by one folder, which holds files and empty directories.

**The walk.** A path is walked one name at a time, from the folder or, after a leading slash, from
outside it. An empty name and a dot stay where they are, two dots go to the directory around, and
nothing leads on from a file, not even a dot.

**Outside.** The walk can leave the folder by `..`, and what it stands on then is a directory, but
no name is known there, so it never comes back.

**Limits.** A name longer than `maxName` fails where the walk reaches it, so an earlier fault of the
path wins. A path longer than `maxPath`, or with a zero byte in it, fails before the walk.
-/

namespace Concord

open Text

/-- A directory by the names of what it holds; the first of two equal names counts. -/
structure Folder where
  nodes : List (Path × FileNode)

namespace Folder

/-- Where a walk stands: in the folder, in a directory of the folder, in a directory outside it, or
at a file. -/
inductive Place where
  | top
  | inner
  | outside
  | file (content : Bytes)
  deriving DecidableEq

namespace Place

/-- What is opened where the walk ends. -/
def node : Place → FileNode
  | file content => .file content
  | _ => .directory

/-- The directory around a place. The one around the root is the root itself. -/
def parent : Place → Place
  | inner | file _ => top
  | top | outside => outside

end Place

/-- The most bytes of a name. -/
def maxName : Nat := 255

/-- The most bytes of a path. -/
def maxPath : Nat := 4095

/-- The place under a name. Only the folder itself holds anything. -/
def enter (folder : Folder) (name : Bytes) : Place → Except OpenFailure Place
  | .top =>
    match folder.nodes.lookup name with
    | none => .error .missing
    | some .directory => .ok .inner
    | some (.file content) => .ok (.file content)
  | _ => .error .missing

/-- One step of the walk. -/
def step (folder : Folder) : Place → Bytes → Except OpenFailure Place
  | .file _, _ => .error .notDirectory
  | place, name =>
    if name.isEmpty || name == encode "." then .ok place
    else if name == encode ".." then .ok place.parent
    else if maxName < name.length then .error .nameTooLong
    else folder.enter name place

/-- Where the walk along a path begins. -/
def start (path : Path) : Place := if path.head? == some 47 then .outside else .top

/-- Opens a path relative to the folder. -/
def files (folder : Folder) : FileSystem := fun path =>
  if path.contains 0 then .error .containsNul
  else if path.isEmpty then .error .missing
  else if maxPath < path.length then .error .nameTooLong
  else ((pieces (· == 47) path).foldlM folder.step (start path)).map Place.node

end Folder

end Concord
