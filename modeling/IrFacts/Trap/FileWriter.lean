import IrFacts.Ir.Location
import IrFacts.Text.Path
import IrFacts.Trap.Writer

/-!
# Writers with a target file

Locations are attributed to a target: a source file with its line table, or a
class file, which has no lines. The target can be exchanged for a while and
put back.

A file is entered into the tables of files and folders when its label is
created. The folders above it are entered from the nearest one upwards, until
one is met that is known already.
-/

set_option autoImplicit false

namespace IrFacts.Trap

namespace Writer

/-- Enters the folders above `child`, which are `folders`, the nearest first. -/
def enterFolders (w : Writer) (child : Label) : List Path → Writer
  | [] => w
  | folder :: rest =>
    if folder.text = "" then w
    else
      match w.lookup (folder.text ++ ";folder") with
      | (.existing label, w) => w.fact (.containerparent label child)
      | (.created label, w) =>
        let w := w.fact (.folders label folder.text)
        (w.fact (.containerparent label child)).enterFolders label rest

/-- The label of a file. With `populate` a new one is entered into the tables. -/
def fileLabel (w : Writer) (text : String) (populate : Bool) : Label × Writer :=
  match w.lookup (text ++ ";sourcefile") with
  | (.existing label, w) => (label, w)
  | (.created label, w) =>
    if populate then
      let path : Path := ⟨text⟩
      let w := w.fact (.files label text path.stem path.extension 0)
      (label, w.enterFolders label path.parents)
    else (label, w)

def sourceFile (w : Writer) (text : String) : Label × Writer := w.fileLabel text true

end Writer

structure Target where
  path : String
  label : Label
  /-- Absent for a class file. -/
  lines : Option LineTable
deriving DecidableEq, Repr, Inhabited

def Target.isClassFile (t : Target) : Bool := t.lines.isNone

structure Region where
  startLine : UInt32
  startColumn : UInt32
  endLine : UInt32
  endColumn : UInt32
deriving DecidableEq, Repr, Inhabited

namespace Region

def whole : Region := ⟨0, 0, 0, 0⟩

/-- Where a span lies: lines and the first column count from one, and the last
column is that of the last character, which is how far the end of the span is
from the start of its line. There is no answer in an empty table. -/
def ofSpan? (lines : LineTable) (span : Span) : Option Region := do
  let startColumn ← lines.columnOf? span.first
  let endColumn ← lines.columnOf? span.last
  return {
    startLine := UInt32.ofNat (lines.lineOf span.first) + 1
    startColumn := startColumn + 1
    endLine := UInt32.ofNat (lines.lineOf span.last) + 1
    endColumn }

def key (r : Region) (file : Label) : String :=
  "loc," ++ file.braced ++ "," ++ toString r.startLine.toNat ++ "," ++ toString r.startColumn.toNat
    ++ "," ++ toString r.endLine.toNat ++ "," ++ toString r.endColumn.toNat

end Region

structure FileWriter where
  writer : Writer
  target : Target
deriving Inhabited

namespace FileWriter

def ofPath (w : Writer) (path : String) (lines : Option LineTable) : FileWriter :=
  let (label, writer) := w.fileLabel path true
  { writer, target := { path, label, lines } }

def source (w : Writer) (path : String) (lines : LineTable) : FileWriter :=
  ofPath w path (some lines)

def classFile (w : Writer) (path : String) : FileWriter := ofPath w path none

/-- Takes another target and hands back the one before. -/
def retarget (w : FileWriter) (path : String) (lines : Option LineTable) (populate : Bool) :
    Target × FileWriter :=
  let (label, writer) := w.writer.fileLabel path populate
  (w.target, { writer, target := { path, label, lines } })

def restore (w : FileWriter) (target : Target) : FileWriter := { w with target }

/-! ## Locations -/

def locationIn (w : FileWriter) (file : Label) (r : Region) : Label × FileWriter :=
  match w.writer.lookup (r.key file) with
  | (.existing label, writer) => (label, { w with writer })
  | (.created label, writer) =>
    (label, { w with
      writer := writer.fact
        (.locationsDefault label file r.startLine r.startColumn r.endLine r.endColumn) })

def wholeFile (w : FileWriter) : Label × FileWriter := w.locationIn w.target.label .whole

/-- A file without a name, for what has no place. -/
def unknownFile (w : FileWriter) : Label × FileWriter :=
  match w.writer.lookup ";sourcefile" with
  | (.existing label, writer) => (label, { w with writer })
  | (.created label, writer) => (label, { w with writer := writer.fact (.files label "" "" "" 0) })

def unknownLocation (w : FileWriter) : Label × FileWriter :=
  let (file, w) := w.unknownFile
  w.locationIn file .whole

/-- The place of a span in the target file. There is none, and nothing is
written, when the table of the target is empty. -/
def location? (w : FileWriter) (span : Span) : Option (Label × FileWriter) :=
  match w.target.lines with
  | none => some w.wholeFile
  | some lines =>
    if span.isUndefined then some w.unknownLocation
    else (Region.ofSpan? lines span).map fun r => w.locationIn w.target.label r

end FileWriter

end IrFacts.Trap
