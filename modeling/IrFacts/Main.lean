import IrFacts.Files.Disk
import IrFacts.Run.CommandLine
import Std.Time.DateTime.Timestamp

/-!
# The program

Real files, the environment and the clock, and the command line on top of
them.
-/

set_option autoImplicit false

namespace IrFacts

/-- The cause of an error, from the number that the system gives it. Some
calls give it with a minus sign. -/
def FileError.ofNumber (given : UInt32) (message : String) : FileError :=
  let number := if given < 0x80000000 then given else 0 - given
  if number = 2 then .notFound
  else if number = 17 then .alreadyThere
  else if number = 20 then .notFolder
  else if number = 21 then .isFolder
  else if number = 36 then .nameTooLong
  else .other (message ++ " (os error " ++ toString number.toNat ++ ")")

def FileError.ofError : IO.Error → FileError
  | .noFileOrDirectory _ number message => ofNumber number message
  | .alreadyExists _ number message => ofNumber number message
  | .inappropriateType _ number message => ofNumber number message
  | .invalidArgument _ number message => ofNumber number message
  | .permissionDenied _ number message => ofNumber number message
  | .resourceExhausted _ number message => ofNumber number message
  | .resourceBusy number message => ofNumber number message
  | .unsatisfiedConstraints number message => ofNumber number message
  | .otherError number message => ofNumber number message
  | error => .other (toString error)

namespace OnSystem

def attempt {α : Type} (action : IO α) : IO (Except FileError α) := do
  try return .ok (← action)
  catch error => return .error (.ofError error)

def found (text : String) : IO Bool := do
  try
    let _ ← IO.FS.realPath text
    return true
  catch _ => return false

/-- Makes a file under a name that is not in use, after so many tries. -/
def makeNew (folder : Path) (front back : String) : Nat → IO Path
  | 0 => throw (IO.userError "no name is free")
  | tries + 1 => do
    let path := Disk.within folder (Disk.temporaryName front back (← IO.rand 0 (Nat.pow 36 6 - 1)))
    if ← found path.text then makeNew folder front back tries
    else
      let _ ← IO.FS.Handle.mk path.text .writeNew
      return path

end OnSystem

open OnSystem

instance : Files IO IO.FS.Handle where
  present p := found p.text
  isFolder p := found (p.text ++ "/.")
  read p := attempt (IO.FS.readBinFile p.text)
  makeFolder p := attempt (IO.FS.createDir p.text)
  makeTemporary folder front back := attempt (makeNew folder front back 100)
  write p contents := attempt (IO.FS.writeBinFile p.text contents)
  rename source target := attempt (IO.FS.rename source.text target.text)
  remove p := attempt (IO.FS.removeFile p.text)
  openAppend p := attempt (IO.FS.Handle.mk p.text .append)
  append handle contents := attempt do
    handle.write contents
    handle.flush

/-- The time in nanoseconds since the epoch. -/
def clock : IO Nat := do
  let now ← Std.Time.Timestamp.now
  return now.toNanosecondsSinceUnixEpoch.val.toNat

def environment : IO (List (String × String)) :=
  [Config.trapDirVariable, Config.sourceArchiveDirVariable,
    Config.diagnosticLimitVariable].filterMapM fun name => do
      return (← IO.getEnv name).map fun value => (name, value)

end IrFacts

open IrFacts in
def main (args : List String) : IO UInt32 := do
  let settings ← environment
  let outcome ← CommandLine.execute (fun name => settings.lookup name) clock args
  IO.print outcome.output
  IO.eprint outcome.complaint
  return outcome.exitCode
