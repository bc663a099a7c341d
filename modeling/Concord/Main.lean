import Concord.Session

/-!
# The program

Reads the files that the command line names and hands them to `respond`. The system gives the
arguments as text: bytes that are not UTF-8 are replaced before the program sees them. A fault of
the command line is put into words here.
-/

open Concord

/-- The files that a configuration names. -/
def Concord.Config.paths (config : Config) : List Path :=
  let input := match config.input with
    | .text _ => []
    | .file path => [path]
  config.sources.lexicon.toList ++ config.sources.extra.toList ++ input

/-- The number of a system error, which some calls give with its sign turned. -/
def Concord.errorNumber (code : UInt32) : UInt32 := min code (-code)

/-- Opens and reads the file under a path. -/
def Concord.openPath (path : Path) : IO (Except OpenFailure FileNode) := do
  try
    let content ← IO.FS.readBinFile (Text.decodeLossy path)
    return .ok (.file content.toList)
  catch
    | .noFileOrDirectory .. => return .error .missing
    | .inappropriateType _ code _ =>
      return if errorNumber code = 21 then .ok .directory else .error .notDirectory
    | e@(.invalidArgument _ code _) =>
      return .error (if errorNumber code = 36 then .nameTooLong else .refused (toString e))
    | e => return .error (.refused (toString e))

/-- A fault of the command line in words. -/
def Concord.UsageFault.explanation : UsageFault → String
  | unknownArgument => "error: unexpected argument"
  | invalidValue => "error: invalid value"
  | tooManyValues => "error: unexpected value"
  | conflict => "error: arguments cannot be used together"
  | invalidUtf8 => "error: invalid UTF-8"
  | missingInput => "error: no input"

def main (arguments : List String) : IO UInt32 := do
  let words := arguments.map Text.encode
  let asked := Config.ofArguments words
  let paths := match asked with
    | .ok config => config.paths
    | .error _ => []
  if let .error (.fault fault) := asked then IO.eprintln fault.explanation
  let nodes ← paths.mapM fun path => return (path, ← openPath path)
  let response := respond (fun path => (nodes.lookup path).getD (.error .missing)) words
  IO.print response.stdout
  IO.eprint response.stderr
  return response.status.toUInt32
