import ArithAsm.Command.Check
import ArithAsm.Command.Compile
import ArithAsm.Command.Run

/-!
The program. Its first argument names the command, and the others are the
arguments of that command. Files, the environment and the clock of the machine
are connected here and nowhere else.
-/

namespace ArithAsm.Main

/-- A text as a string. Bytes that are not UTF-8 become replacement
characters. -/
def string (t : Text) : String :=
  String.ofList (t.runes.map Rune.char)

def fileError (action : String) (path : Text) (e : IO.Error) : FileError :=
  let reason : FileErrorReason :=
    match e with
    | .noFileOrDirectory _ _ _ => .notFound
    | .inappropriateType _ _ _ => .isDirectory
    | e => .other (toString e)
  ⟨action, path, reason⟩

def bytes (t : Text) : ByteArray :=
  ⟨t.toArray⟩

/-- The files of the machine. -/
def files : FileSystem IO where
  read path := do
    try return .ok (← IO.FS.readBinFile (string path)).toList
    catch e => return .error (fileError "open" path e)
  write path body := do
    try
      IO.FS.writeBinFile (string path) (bytes body)
      return .ok ()
    catch e => return .error (fileError "open" path e)

/-- Times are taken before a command starts, so the elapsed time it shows is
that of reading its surroundings. -/
def host : IO Host := do
  let start ← IO.monoNanosNow
  let setting ← IO.getEnv "EXPRC_CC"
  let now ← IO.monoNanosNow
  let elapsed : Duration := ⟨(now - start : Nat)⟩
  return {
    target := .ofHost "linux" "amd64"
    toolchain := .ofHost "linux" "amd64"
    compilerVariable := setting.map Text.ofString
    logTime := Decimal.ofNat (now / Duration.millisecond)
    logElapsed := elapsed.text
    totalElapsed := elapsed.roundToMillisecond.text }

def usage : String :=
  "usage: arithasm exprc|expr|testrunner [arguments]"

def emit (outcome : Outcome) : IO UInt32 := do
  let stdout ← IO.getStdout
  let stderr ← IO.getStderr
  stdout.write (bytes outcome.stdout)
  stderr.write (bytes outcome.stderr)
  return outcome.code.toUInt32

end ArithAsm.Main

open ArithAsm in
def main (args : List String) : IO UInt32 := do
  let host ← Main.host
  let run (command : FileSystem IO → Host → List Text → IO Outcome) (args : List String) :
      IO UInt32 := do
    Main.emit (← command Main.files host (args.map Text.ofString))
  match args with
  | "exprc" :: args => run Command.Compile.run args
  | "expr" :: args => run Command.Run.run args
  | "testrunner" :: args => run Command.Check.run args
  | _ =>
      IO.eprintln Main.usage
      return 1
