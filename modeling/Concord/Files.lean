import Concord.Text.Pieces
import Concord.Text.Utf8

/-!
# Files

Files as a program sees them: opening a path gives a file, a directory, or a reason why nothing can
be opened. Paths and contents are bytes. A directory can be opened, but not read.
-/

namespace Concord

open Text

/-- The path of a file. -/
abbrev Path := Bytes

/-- Why a path cannot be opened. -/
inductive OpenFailure where
  | missing
  | notDirectory
  | nameTooLong
  | containsNul
  | refused (reason : String)
  deriving DecidableEq

/-- Why something that was opened cannot be read as text. -/
inductive ReadFailure where
  | isDirectory
  | invalidUtf8
  deriving DecidableEq

/-- Why a file gives no text. -/
inductive FileFailure where
  | opening (cause : OpenFailure)
  | reading (cause : ReadFailure)
  deriving DecidableEq

/-- The text of the system for a failure. -/
def OpenFailure.message : OpenFailure → String
  | missing => "No such file or directory (os error 2)"
  | notDirectory => "Not a directory (os error 20)"
  | nameTooLong => "File name too long (os error 36)"
  | containsNul => "file name contained an unexpected NUL byte"
  | refused reason => reason

/-- The text of the system for a failure. -/
def ReadFailure.message : ReadFailure → String
  | isDirectory => "Is a directory (os error 21)"
  | invalidUtf8 => "stream did not contain valid UTF-8"

/-- The text of the system for a failure. -/
def FileFailure.message : FileFailure → String
  | opening cause => cause.message
  | reading cause => cause.message

/-- What stands under a path. -/
inductive FileNode where
  | file (content : Bytes)
  | directory
  deriving DecidableEq

namespace FileNode

/-- The text spelled by some bytes of a file. -/
def spell (bytes : Bytes) : Except ReadFailure String :=
  match decode? bytes with
  | some s => .ok s
  | none => .error .invalidUtf8

/-- The lines of some bytes, each read on its own. -/
def linesOf (content : Bytes) : List (Except ReadFailure String) :=
  (Text.lines 10 13 content).map spell

/-- The whole text of a file. -/
def text : FileNode → Except ReadFailure String
  | file content => spell content
  | directory => .error .isDirectory

/-- The lines of a file. Reading a directory fails at its first line. -/
def lines : FileNode → List (Except ReadFailure String)
  | file content => linesOf content
  | directory => [.error .isDirectory]

end FileNode

/-- What opening each path gives. -/
abbrev FileSystem := Path → Except OpenFailure FileNode

namespace FileSystem

/-- The text of the file under a path. -/
def readText (files : FileSystem) (path : Path) : Except FileFailure String :=
  match files path with
  | .error cause => .error (.opening cause)
  | .ok node =>
    match node.text with
    | .error cause => .error (.reading cause)
    | .ok text => .ok text

end FileSystem

end Concord
