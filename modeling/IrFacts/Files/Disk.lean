import IrFacts.Files.Basic

/-!
# A modelled disk

Entries stand at locations, the names on the way from the root. A file entry
leads to contents by a number, so that a handle keeps leading to the contents
it was opened on, whatever happens to the entry. Any operation can be made to
fail, and then changes nothing.
-/

set_option autoImplicit false

namespace IrFacts

abbrev Location := List String

inductive Entry where
  | folder
  | file (id : Nat)
deriving DecidableEq, Repr, Inhabited

structure Disk where
  /-- Where relative paths start. -/
  here : Location := []
  entries : List (Location × Entry) := []
  contents : List (Nat × ByteArray) := []
  nextFile : Nat := 0
  nextName : Nat := 0
  /-- Whether an operation fails, from the number of those before it. -/
  refuses : Nat → Option FileError := fun _ => none
  calls : Nat := 0
deriving Inhabited

namespace Disk

def maxName : Nat := 255

def maxPath : Nat := 4095

def ofFolder (names : Location) : Disk :=
  { here := names
    entries := (List.range names.length).map fun n => (names.take (n + 1), .folder) }

def entry? (d : Disk) (location : Location) : Option Entry :=
  if location.isEmpty then some .folder else d.entries.lookup location

def contentsOf (d : Disk) (id : Nat) : ByteArray := (d.contents.lookup id).getD ByteArray.empty

/-! ## Resolving paths -/

/-- Where a path leads: a location, what stands there, and whether the path
goes on behind it with a slash. -/
structure Spot where
  location : Location
  entry : Option Entry
  slash : Bool
deriving Repr

/-- Follows names from a folder. All but the last have to be folders. -/
def follow (d : Disk) : Location → List String → Except FileError Spot
  | place, [] => .ok ⟨place, some .folder, false⟩
  | place, name :: rest =>
    if Path.isJunk name then d.follow place rest
    else if name = ".." then d.follow place.dropLast rest
    else if maxName < name.utf8ByteSize then .error .nameTooLong
    else
      let next := place ++ [name]
      match d.entry? next with
      | some .folder => d.follow next rest
      | some (.file id) =>
        if rest.isEmpty then .ok ⟨next, some (.file id), false⟩ else .error .notFolder
      | none => if rest.all (· = "") then .ok ⟨next, none, !rest.isEmpty⟩ else .error .notFound

def spot (d : Disk) (p : Path) : Except FileError Spot :=
  if p.text = "" then .error .notFound
  else if p.text.toList.contains '\x00' then .error .badName
  else if maxPath < p.text.utf8ByteSize then .error .nameTooLong
  else d.follow (if p.isAbsolute then [] else d.here) p.segments

def stat (d : Disk) (p : Path) : Except FileError Entry := do
  match (← d.spot p).entry with
  | some entry => return entry
  | none => throw .notFound

def fileAt (d : Disk) (p : Path) : Except FileError Nat := do
  match ← d.stat p with
  | .file id => return id
  | .folder => throw .isFolder

/-! ## Changes -/

def setEntry (d : Disk) (location : Location) (entry : Entry) : Disk :=
  { d with entries := (location, entry) :: d.entries.filter (·.1 ≠ location) }

def removeEntry (d : Disk) (location : Location) : Disk :=
  { d with entries := d.entries.filter (·.1 ≠ location) }

def setContents (d : Disk) (id : Nat) (contents : ByteArray) : Disk :=
  { d with contents := (id, contents) :: d.contents.filter (·.1 ≠ id) }

def addFile (d : Disk) (location : Location) : Nat × Disk :=
  let made := (d.setEntry location (.file d.nextFile)).setContents d.nextFile ByteArray.empty
  (d.nextFile, { made with nextFile := d.nextFile + 1 })

/-! ## Operations -/

def present (d : Disk) (p : Path) : Bool :=
  match d.stat p with
  | .ok _ => true
  | .error _ => false

def isFolder (d : Disk) (p : Path) : Bool :=
  match d.stat p with
  | .ok .folder => true
  | _ => false

def read (p : Path) (d : Disk) : Except FileError (ByteArray × Disk) := do
  return (d.contentsOf (← d.fileAt p), d)

def makeFolder (p : Path) (d : Disk) : Except FileError (Unit × Disk) := do
  let s ← d.spot p
  match s.entry with
  | some _ => throw .alreadyThere
  | none => return ((), d.setEntry s.location .folder)

/-- Digits and lower case letters, the last ones of `n` in base 36. -/
def nameDigits : Nat → Nat → List Char
  | 0, _ => []
  | count + 1, n =>
    let digit := n % 36
    nameDigits count (n / 36) ++
      [Char.ofNat (if digit < 10 then '0'.toNat + digit else 'a'.toNat + (digit - 10))]

def temporaryName (front back : String) (n : Nat) : String :=
  front ++ String.ofList (nameDigits 6 n) ++ back

def within (folder : Path) (name : String) : Path := folder.fromHere.join ⟨name⟩

def makeTemporary (folder : Path) (front back : String) (d : Disk) :
    Except FileError (Path × Disk) := do
  let path (n : Nat) : Path := within folder (temporaryName front back n)
  let free := (List.range (d.entries.length + 1)).find? fun i => !d.present (path (d.nextName + i))
  let n := d.nextName + free.getD 0
  let s ← d.spot (path n)
  match s.entry with
  | some _ => throw .alreadyThere
  | none => return (path n, { (d.addFile s.location).2 with nextName := n + 1 })

def write (p : Path) (contents : ByteArray) (d : Disk) : Except FileError (Unit × Disk) := do
  return ((), d.setContents (← d.fileAt p) contents)

def rename (source target : Path) (d : Disk) : Except FileError (Unit × Disk) := do
  let old ← d.spot source
  let new ← d.spot target
  match old.entry, new.entry with
  | none, _ => throw .notFound
  | some .folder, _ => throw .isFolder
  | some (.file _), some .folder => throw .isFolder
  | some (.file id), _ =>
    if new.slash then throw .notFolder
    else return ((), (d.removeEntry old.location).setEntry new.location (.file id))

def remove (p : Path) (d : Disk) : Except FileError (Unit × Disk) := do
  let s ← d.spot p
  match s.entry with
  | none => throw .notFound
  | some .folder => throw .isFolder
  | some (.file _) => return ((), d.removeEntry s.location)

def openAppend (p : Path) (d : Disk) : Except FileError (Nat × Disk) := do
  let s ← d.spot p
  match s.entry with
  | some .folder => throw .isFolder
  | some (.file id) => return (id, d)
  | none => if s.slash then throw .isFolder else return d.addFile s.location

def append (id : Nat) (contents : ByteArray) (d : Disk) : Except FileError (Unit × Disk) :=
  return ((), d.setContents id (d.contentsOf id ++ contents))

/-- Removes what stands at a path, a folder with all that is in it. -/
def removeTree (p : Path) (d : Disk) : Except FileError (Unit × Disk) := do
  let s ← d.spot p
  return ((), { d with entries := d.entries.filter fun e => !s.location.isPrefixOf e.1 })

/-- The files below the folder where paths start, with the names that lead
there. -/
def files (d : Disk) : List (Location × ByteArray) :=
  d.entries.filterMap fun (location, entry) => match entry with
    | .folder => none
    | .file id =>
      if d.here.isPrefixOf location then some (location.drop d.here.length, d.contentsOf id)
      else none

end Disk

abbrev OnDisk := StateM Disk

namespace OnDisk

/-- Runs an operation, unless it is one of those that fail. -/
def attempt {α : Type} (operation : Disk → Except FileError (α × Disk)) :
    OnDisk (Except FileError α) := fun d =>
  let counted : Disk := { d with calls := d.calls + 1 }
  match d.refuses d.calls with
  | some error => (.error error, counted)
  | none =>
    match operation counted with
    | .ok (a, d) => (.ok a, d)
    | .error error => (.error error, counted)

instance : Files OnDisk Nat where
  present p := fun d => (d.present p, d)
  isFolder p := fun d => (d.isFolder p, d)
  read p := attempt (Disk.read p)
  makeFolder p := attempt (Disk.makeFolder p)
  makeTemporary folder front back := attempt (Disk.makeTemporary folder front back)
  write p contents := attempt (Disk.write p contents)
  rename source target := attempt (Disk.rename source target)
  remove p := attempt (Disk.remove p)
  openAppend p := attempt (Disk.openAppend p)
  append id contents := attempt (Disk.append id contents)

end OnDisk

end IrFacts
