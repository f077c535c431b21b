/-!
# Paths as text

A path is the text that was given. Its components are read off between
slashes: empty segments and `.` say nothing, except that a relative path may
start with `.`. Nothing is normalised beyond that, so `..` is a component like
any other.
-/

set_option autoImplicit false

namespace IrFacts

structure Path where
  text : String
deriving DecidableEq, Repr, Inhabited

namespace Path

inductive Component where
  | root
  /-- The `.` at the start of a relative path. -/
  | current
  | parent
  | normal (name : String)
deriving DecidableEq, Repr

def segmentsOf : List Char → List (List Char)
  | [] => [[]]
  | c :: rest =>
    if c = '/' then [] :: segmentsOf rest
    else
      match segmentsOf rest with
      | [] => [[c]]
      | s :: more => (c :: s) :: more

def segments (p : Path) : List String := (segmentsOf p.text.toList).map String.ofList

def isJunk (segment : String) : Bool := segment = "" || segment = "."

def isAbsolute (p : Path) : Bool := p.text.toList.head? = some '/'

/-- The start of a path that stays when its last component is removed: the
root, or the first segment of a relative path. Then the segments behind it. -/
def anchor (p : Path) : String × List String :=
  match p.segments with
  | [] => ("", [])
  | first :: rest => (first, rest)

def dropJunk (segments : List String) : List String :=
  (segments.reverse.dropWhile isJunk).reverse

def componentOf? (segment : String) : Option Component :=
  if isJunk segment then none
  else if segment = ".." then some .parent
  else some (.normal segment)

def components (p : Path) : List Component :=
  let (first, rest) := p.anchor
  let head : List Component :=
    if p.isAbsolute then [.root]
    else if first = "." then [.current]
    else (componentOf? first).toList
  head ++ rest.filterMap componentOf?

def names (p : Path) : List String :=
  p.components.filterMap fun c => match c with
    | .normal name => some name
    | _ => none

/-- The last component, if it is a name. -/
def fileName? (p : Path) : Option String :=
  match p.components.getLast? with
  | some (.normal name) => some name
  | _ => none

/-- The text up to the last component. Neither the root nor the empty path has
a parent. -/
def parent? (p : Path) : Option Path :=
  let (first, rest) := p.anchor
  match dropJunk rest with
  | [] => if p.isAbsolute || first = "" then none else some ⟨""⟩
  | more =>
    let kept := dropJunk more.dropLast
    if p.isAbsolute && kept.isEmpty then some ⟨"/"⟩
    else some ⟨"/".intercalate (first :: kept)⟩

/-- The parents of a path, the nearest first, as far as `steps` goes. -/
def parentsWithin : Nat → Path → List Path
  | 0, _ => []
  | steps + 1, p =>
    match p.parent? with
    | none => []
    | some q => q :: parentsWithin steps q

/-- The parents of a path, the nearest first. -/
def parents (p : Path) : List Path := parentsWithin (p.segments.length + 1) p

/-- A file name before and behind its last dot. A dot at the start splits
nothing off. -/
def splitAtDot (name : String) : String × Option String :=
  let reversed := name.toList.reverse
  let extension := (reversed.takeWhile (· ≠ '.')).reverse
  match (reversed.dropWhile (· ≠ '.')).tail.reverse with
  | [] => (name, none)
  | stem => (String.ofList stem, some (String.ofList extension))

/-- The file name without its extension. -/
def stem (p : Path) : String := (p.fileName?.map fun name => (splitAtDot name).1).getD ""

def extension (p : Path) : String := (p.fileName?.bind fun name => (splitAtDot name).2).getD ""

/-- A relative path without the segments at its start that only say that it
begins here. -/
def fromHere (p : Path) : Path :=
  if p.isAbsolute then p else ⟨"/".intercalate (p.segments.dropWhile isJunk)⟩

/-- An absolute path on the right stands for itself. -/
def join (p q : Path) : Path :=
  if q.isAbsolute then q
  else if p.text = "" || p.text.toList.getLast? = some '/' then ⟨p.text ++ q.text⟩
  else ⟨p.text ++ "/" ++ q.text⟩

/-- Puts `name` in the place of the file name, or behind a path without one. -/
def withFileName (p : Path) (name : String) : Path :=
  match p.fileName? with
  | some _ => (p.parent?.getD p).join ⟨name⟩
  | none => p.join ⟨name⟩

def withSuffix (p : Path) (suffix : String) : Path :=
  p.withFileName (p.fileName?.getD "" ++ suffix)

/-- The directory of a file: its parent, or the current directory. -/
def directory (p : Path) : Path :=
  match p.parent? with
  | some q => if q.text = "" then ⟨"."⟩ else q
  | none => ⟨"."⟩

/-- A path made of the names of `text` alone, so that joining it leads
nowhere but downwards. -/
def relativeToRoot (text : String) : Path :=
  (Path.mk text).names.foldl (fun p name => p.join ⟨name⟩) ⟨""⟩

end Path

end IrFacts
