import RealMode.Session

/-! # The command line program -/
open RealMode CommandLine

def usageText : String :=
  "Run DOS .COM programs on an emulated 8086 PC\n\n" ++
  "Usage: realmode [OPTIONS] run FILE [--cpu MODEL] [--memory KB] [--max-steps N]\n" ++
  "                [--input TEXT] [--tail TEXT] [--dump-state FILE] [--echo] [--screen]\n" ++
  "       realmode [OPTIONS] disasm FILE [--cpu MODEL] [--count N]\n\n" ++
  "Options: --log-level LEVEL, --log-cpu LEVEL, --log-interrupts LEVEL,\n" ++
  "         --log-file FILE, --log-rate N, --help, --version\n"

def versionText : String := "realmode 0.1.0\n"

def usageMessage : UsageError → String
  | .unknownArgument => "unexpected argument"
  | .unknownCommand => "unrecognized subcommand"
  | .invalidNumber => "invalid value"
  | .missingValue => "a value is required"
  | .unexpectedValue => "unexpected value"
  | .repeated => "an argument cannot be used multiple times"
  | .missingArgument => "a required argument was not provided"
  | .missingCommand => "a subcommand is required"
  | .help | .helpForNothing | .version => ""

def refuse (e : UsageError) : IO UInt32 := do
  match e with
  | .help =>
    IO.print usageText
    return 0
  | .version =>
    IO.print versionText
    return 0
  | .helpForNothing =>
    IO.eprint usageText
    return 2
  | e =>
    IO.eprint ("error: " ++ usageMessage e ++ "\n\n" ++ usageText)
    return 2

def fail (e : SessionError) : IO UInt32 := do
  IO.eprintln ("Error: " ++ e.message)
  return e.status.toUInt32

def readImage (file : String) : IO (Option ByteArray) := do
  try return some (← IO.FS.readBinFile file)
  catch _ => return none

def openJournal (file : String) : IO Bool := do
  try
    let _ ← IO.FS.Handle.mk file .append
    return true
  catch _ => return false

def writeJournal (target : Option String) (j : Journal) : IO Unit := do
  match target with
  | some file => (← IO.FS.Handle.mk file .append).putStr j.text
  | none => IO.eprint j.text

def reasonText (e : IO.Error) : String :=
  match e with
  | .noFileOrDirectory _ code details | .permissionDenied (some _) code details
  | .inappropriateType (some _) code details | .resourceExhausted (some _) code details =>
    details ++ " (os error " ++ toString code ++ ")"
  | e => toString e

def writeDump (r : Report) : IO Report := do
  match r.dump with
  | none => return r
  | some (file, text) =>
    try
      IO.FS.writeFile file text
      return r
    catch e => return r.unsaved (reasonText e)

def deliver (target : Option String) (r : Report) : IO UInt32 := do
  let out ← IO.getStdout
  out.write r.output
  out.flush
  writeJournal target r.journal
  let r ← writeDump r
  match r.result with
  | .ok _ => return r.status.toUInt32
  | .error e => fail e

def main (args : List String) : IO UInt32 := do
  match parse args with
  | .error e => refuse e
  | .ok i =>
    match Session.journal i.journal with
    | .error e => fail e
    | .ok j =>
      if let some file := i.journal.file then
        if !(← openJournal file) then
          return ← fail (.unwritable file)
      deliver i.journal.file
        (Session.perform Session.listingCapacity i.command j (← readImage i.command.file))
