import DesignCoupling.CommandLine.Program

/-!
# Entry point

Reads the design file, and writes the outcome of the program.
-/

namespace DesignCoupling.CommandLine

/-- Whether a system call failed with this number. Some calls report it with a minus sign. -/
def isFailure (code number : UInt32) : Bool := code == number || code == 0 - number

def readErrorOf (e : IO.Error) : ReadError :=
  match e with
  | .noFileOrDirectory _ _ _ => .notFound
  | .inappropriateType _ code _ =>
      if isFailure code 20 then .notDirectory
      else if isFailure code 21 then .isDirectory
      else .other e.toString
  | .invalidArgument _ code _ =>
      if isFailure code 36 then .nameTooLong else .other e.toString
  | .permissionDenied _ _ _ => .other "Permission denied (os error 13)"
  | _ => .other e.toString

def readDesign (path : String) : IO (Except ReadError ByteArray) := do
  try
    return .ok (← IO.FS.readBinFile path)
  catch e => return .error (readErrorOf e)

/-- The outcome of the program on the files of the system. -/
def outcome (arguments : List String) (setting : Setting) : IO Outcome := do
  match parse arguments with
  | .ok (.run i) =>
      let content ← readDesign i.command.design
      return i.run setting fun _ => content
  | _ => return program arguments setting fun _ => .error .notFound

end DesignCoupling.CommandLine

def main (arguments : List String) : IO UInt32 := do
  let setting : DesignCoupling.CommandLine.Setting := { text := ← IO.getEnv "RUST_LOG" }
  let result ← DesignCoupling.CommandLine.outcome arguments setting
  for event in result.log do
    IO.eprintln event.line
  IO.eprint result.error
  IO.print result.output
  return result.exitCode.toUInt32
