import Chip8.Headless

namespace Chip8.Headless

def FileError.ofError : IO.Error → FileError
  | .noFileOrDirectory .. => notFound
  | .permissionDenied .. => permissionDenied
  | .inappropriateType _ 20 _ => notDirectory
  | .inappropriateType .. => isDirectory
  | .invalidArgument _ 36 _ => nameTooLong
  | e => ⟨5, "Uncategorized", toString e⟩

def readProgram (path : String) : IO (Except FileError (List UInt8)) := do
  try
    return .ok (← IO.FS.readBinFile path).toList
  catch e =>
    return .error (.ofError e)

def commandLine (arguments : List String) : IO UInt32 := do
  let report ← run readProgram arguments
  IO.print report.stdout
  IO.eprint report.stderr
  return report.exit

end Chip8.Headless

def main (arguments : List String) : IO UInt32 := Chip8.Headless.commandLine arguments
