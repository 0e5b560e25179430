import ShaderGraft.CommandLine.Commands

/-!
The command line program.
-/

namespace ShaderGraft

/-- What a failure of the system says about a path. -/
def FileFault.ofError : IO.Error → FileFault
  | .inappropriateType _ code _ => if code == 20 then .notDirectory else .isDirectory
  | .permissionDenied .. => .denied
  | .invalidArgument _ code _ => if code == 36 then .nameTooLong else .badPath
  | _ => .noEntry

/-- The contents of a file. -/
def readContents (path : Bytes) : IO (Except FileError Bytes) := do
  match String.fromUTF8? ⟨path.toArray⟩ with
  | none => return .error ⟨"open", path, .noEntry⟩
  | some name =>
    if path.contains 0 then return .error ⟨"open", path, .badPath⟩
    try
      return .ok (← IO.FS.readBinFile name).data.toList
    catch e =>
      let fault := FileFault.ofError e
      return .error ⟨if fault = .isDirectory then "read" else "open", path, fault⟩

end ShaderGraft

def main (args : List String) : IO UInt32 := do
  let outcome ← ShaderGraft.CommandLine.run ShaderGraft.readContents (args.map ShaderGraft.utf8)
  (← IO.getStdout).write ⟨outcome.stdout.toArray⟩
  (← IO.getStderr).write ⟨outcome.stderr.toArray⟩
  return if outcome.failure.isSome then 1 else 0
