import Std.Time
import LoxLang.Command

/-!
# The program

Carries out one command with the files, the standard input and the time of the system. Input is read to
its end before a program runs, and what the program prints appears when it has ended.
-/

namespace LoxLang

/-- The number of a system error, which some operations give with the sign changed. -/
def errorNumber (code : UInt32) : Nat := if code < 0x80000000 then code.toNat else (0 - code).toNat

/-- The fault of a file that could not be opened. -/
def openFaultOf (e : IO.Error) : OpenFault :=
  match e with
  | .noFileOrDirectory .. => .missing
  | .permissionDenied .. => .forbidden
  | .inappropriateType _ code _ => if errorNumber code = 21 then .isFolder else .notFolder
  | .invalidArgument _ code _ => if errorNumber code = 36 then .nameTooLong else .other (toString e)
  | e => .other (toString e)

/-- Everything that a stream still holds. -/
partial def readToEnd (stream : IO.FS.Stream) (bytes : ByteArray) : IO ByteArray := do
  let chunk ← stream.read 65536
  if chunk.isEmpty then pure bytes else readToEnd stream (bytes ++ chunk)

/-- The contents of a file. -/
def openFile (path : String) : IO (Except OpenFault ByteArray) := do
  try
    let bytes ← IO.FS.readBinFile path
    pure (.ok bytes)
  catch e => pure (.error (openFaultOf e))

end LoxLang

open LoxLang

def main (arguments : List String) : IO UInt32 := do
  let invocation := Invocation.ofArguments? arguments
  let path := (invocation.bind Invocation.file).getD ""
  let contents ← openFile path
  let runs := (invocation.map Invocation.subcommand) == some .run
  let input ← if runs then readToEnd (← IO.getStdin) ByteArray.empty else pure ByteArray.empty
  let now ← Std.Time.Timestamp.now
  let microseconds := now.toNanosecondsSinceUnixEpoch.toInt.toNat / 1000
  let result := command
    { openFile := fun _ => contents, input := input.toList
      clock := Clock.ticking microseconds } arguments
  IO.print result.stdout
  IO.eprint result.stderr
  pure (UInt32.ofNat result.exitCode)
