import IrFacts.Text.Path

/-!
# Files

What a program that keeps traps needs of a file system. It is a class over the
monad that the program runs in, so that the same program runs on real files
and on the modelled ones, about which things can be proved.
-/

set_option autoImplicit false

namespace IrFacts

inductive FileError where
  | notFound
  | notFolder
  | isFolder
  | alreadyThere
  | nameTooLong
  | badName
  /-- Bytes that should be text and are not. -/
  | notText
  | other (message : String)
deriving DecidableEq, Repr, Inhabited

def FileError.message : FileError → String
  | .notFound => "No such file or directory (os error 2)"
  | .notFolder => "Not a directory (os error 20)"
  | .isFolder => "Is a directory (os error 21)"
  | .alreadyThere => "File exists (os error 17)"
  | .nameTooLong => "File name too long (os error 36)"
  | .badName => "file name contained an unexpected NUL byte"
  | .notText => "stream did not contain valid UTF-8"
  | .other message => message

class Files (m : Type → Type) (Handle : outParam Type) where
  /-- Whether a file or a folder stands there. -/
  present : Path → m Bool
  isFolder : Path → m Bool
  read : Path → m (Except FileError ByteArray)
  /-- Makes one folder in a folder that exists. -/
  makeFolder : Path → m (Except FileError Unit)
  /-- Makes an empty file in a folder, under a new name that starts and ends
  as told. -/
  makeTemporary : (folder : Path) → (front back : String) → m (Except FileError Path)
  /-- Replaces the contents of a file that exists. -/
  write : Path → ByteArray → m (Except FileError Unit)
  /-- Moves a file, over the one that stands there. -/
  rename : (source target : Path) → m (Except FileError Unit)
  remove : Path → m (Except FileError Unit)
  /-- Opens a file for appending. It is made if it does not exist. -/
  openAppend : Path → m (Except FileError Handle)
  append : Handle → ByteArray → m (Except FileError Unit)

namespace Files

variable {m : Type → Type} {Handle : Type} [Monad m] [Files m Handle]

/-- Turns an error into success if a folder stands there after all. -/
def unlessFolder (p : Path) (error : FileError) : m (Except FileError Unit) := do
  if ← isFolder p then return .ok () else return .error error

/-- Makes a folder and those above it that are missing, as far as `steps`
goes. -/
def makeFoldersWithin : Nat → Path → m (Except FileError Unit)
  | 0, _ => return .error .notFound
  | steps + 1, p => do
    if p.text = "" then return .ok ()
    match ← makeFolder p with
    | .ok () => return .ok ()
    | .error .notFound =>
      match p.parent? with
      | none => return .error .notFound
      | some q =>
        match ← makeFoldersWithin steps q with
        | .error error => return .error error
        | .ok () =>
          match ← makeFolder p with
          | .ok () => return .ok ()
          | .error error => unlessFolder p error
    | .error error => unlessFolder p error

def makeFolders (p : Path) : m (Except FileError Unit) :=
  makeFoldersWithin (p.segments.length + 2) p

def removeIfPresent (p : Path) : m (Except FileError Unit) := do
  match ← remove p with
  | .error .notFound => return .ok ()
  | outcome => return outcome

def settle (temporary target : Path) : m (Except FileError Unit) := do
  match ← rename temporary target with
  | .ok () => return .ok ()
  | .error error =>
    let _ ← remove temporary
    return .error error

/-- Puts contents in the place of a file in one step: a reader sees the old
contents or the new ones. -/
def replace (folder target : Path) (front back : String) (contents : ByteArray) :
    m (Except FileError Unit) := do
  match ← makeTemporary folder front back with
  | .error error => return .error error
  | .ok temporary =>
    match ← write temporary contents with
    | .error error =>
      let _ ← remove temporary
      return .error error
    | .ok () => settle temporary target

end Files

end IrFacts
