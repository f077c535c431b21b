import IrFacts.Extraction.Projection
import IrFacts.Proofs.Program.SymbolTable
import IrFacts.Proofs.Run.Action

/-!
# Types of classes that are not there

Types and code are not checked when a document becomes a program: a number that
leads nowhere is found when it is used, and a type over it is then reported and
projected to the placeholders. The numbers that follow those of the document are
not of this kind. The builtin classes that the document lacks are added under
them, so a type over such a number is a type of a builtin class.
-/

set_option autoImplicit false

namespace IrFacts

namespace Extract

variable {p : Program} {s : Session}

/-- A complaint needs no place in a file, so it always ends, and it is counted. -/
theorem complain_ends (p : Program) (problem : Problem) (s : Session) :
    ∃ s', Ends p s (complain problem) () s' ∧
      s'.counter.errors = s.counter.errors + 1 := by
  refine ⟨_, ends_bind.mpr ⟨_, _, ends_onFile.mpr ⟨rfl, rfl⟩, ends_reportAt.mpr rfl⟩, ?_⟩
  simp only [Event.step, Event.report_eq]

end Extract

namespace Program

variable {d : Document} {p : Program} {id : DeclId}

/-- What a number behind those of the document is taken for, if for anything. -/
theorem fqName?_dangling (h : ofDocument d = .ok p)
    (hdangling : d.declarations.length ≤ id.index.toNat) :
    p.fqName? id = (d.given.missingBuiltins[id.index.toNat - d.declarations.length]?).map
      (qualify "kotlin") := by
  obtain ⟨hleads, heq⟩ := leads_of_ofDocument h
  have hp : d.Established p := heq ▸ established_ofDocument hleads
  have hdecl := hp.decl? id
  rw [List.getElem?_append_right hdangling, List.getElem?_map] at hdecl
  cases hname : d.given.missingBuiltins[id.index.toNat - d.declarations.length]? with
  | some name => exact fqName?_of_builtinStub (by rw [hdecl, hname, Option.map_some])
  | none =>
    refine Option.eq_none_iff_forall_ne_some.mpr fun name hnamed => ?_
    have hdeclares := declares_of_fqName? hnamed
    rw [Declares, hdecl, hname] at hdeclares
    cases hdeclares

end Program

namespace Projection

open Extract

variable {p : Program} {id : DeclId} {s : SimpleType}

theorem simpleType_nonClass (π : Projection) (hclass : s.classifier = .ofClass id)
    (hname : p.fqName? id = none) (primitives : Bool) (session : Session) :
    ∃ s', Ends p session (π.simpleType primitives s) .unknown s' ∧
      session.counter.errors < s'.counter.errors := by
  have hrefuse (t : Session) : ∃ s', Ends p t (do
      complain (.typeOfNonClass id)
      return TypeViews.unknown) .unknown s' ∧ s'.counter.errors = t.counter.errors + 1 := by
    obtain ⟨s', hends, hcount⟩ := complain_ends p (.typeOfNonClass id) t
    exact ⟨s', ends_bind.mpr ⟨(), s', hends, ends_pure.mpr ⟨rfl, rfl⟩⟩, hcount⟩
  simp only [simpleType, ends_read_bind, hclass, hname]
  split
  · obtain ⟨t, halias, hfirst⟩ :=
      complain_ends p (.aliasIgnored (p.simpleShortName primitives false s)) session
    obtain ⟨s', hends, hcount⟩ := hrefuse t
    exact ⟨s', ends_bind.mpr ⟨(), t, halias, hends⟩, by omega⟩
  · obtain ⟨s', hends, hcount⟩ := hrefuse session
    exact ⟨s', hends, by omega⟩

end Projection

namespace Extract

variable {d : Document} {p : Program} {id : DeclId}

/-- A class number that the document has no declaration for is either that of a builtin
class which was added to it, or every type over it is projected to the placeholders and
counted as an error. -/
theorem type_ofDangling (h : Program.ofDocument d = .ok p) {s : SimpleType}
    (hclass : s.classifier = .ofClass id)
    (hdangling : d.declarations.length ≤ id.index.toNat) :
    (p.fqName? id = (d.given.missingBuiltins[id.index.toNat - d.declarations.length]?).map
      (qualify "kotlin")) ∧
    (d.declarations.length + d.given.missingBuiltins.length ≤ id.index.toNat →
      ∀ (fuel : Nat) (primitives : Bool) (session : Session),
        ∃ s', Ends p session ((projection (fuel + 1)).type primitives (.simple s)) .unknown s' ∧
          session.counter.errors < s'.counter.errors) := by
  have hname := Program.fqName?_dangling h hdangling
  refine ⟨hname, fun hnone fuel primitives session => ?_⟩
  rw [List.getElem?_eq_none (by omega), Option.map_none] at hname
  exact (projection fuel).simpleType_nonClass hclass hname primitives session

/-- A field whose type is over a number that the document does not have. -/
def misnumbered (number : UInt32) : Document :=
  { files := [{ path := "a.kt", declarations := [⟨0⟩] }]
    declarations :=
      [{ parent := .file ⟨0⟩, kind := .field { name := "x", type := .ofClass ⟨number⟩ [] } }] }

theorem type_ofDangling_misnumbered : ∃ p, Program.ofDocument (misnumbered 26) = .ok p ∧
    p.fqName? ⟨1⟩ = some "kotlin.Any" ∧
    ∃ s', Ends p { file := .source (.ofSink .unbounded) "a.kt" .single, counter := {}, queue := {} }
      ((projection 1).type true (.ofClass ⟨26⟩ [])) .unknown s' ∧ 0 < s'.counter.errors := by
  have hmissing : (misnumbered 26).given.missingBuiltins = Program.builtinClasses := by
    decide +kernel
  have hok : (Program.ofDocument (misnumbered 26)).isOk = true := by decide +kernel
  cases hd : Program.ofDocument (misnumbered 26) with
  | error e =>
    rw [hd] at hok
    cases hok
  | ok p =>
    have hfirst := (@type_ofDangling _ _ ⟨1⟩ hd ⟨.ofClass ⟨1⟩, false, [], none⟩ rfl (by decide)).1
    have hlast := (@type_ofDangling _ _ ⟨26⟩ hd ⟨.ofClass ⟨26⟩, false, [], none⟩ rfl (by decide)).2
    rw [hmissing] at hfirst hlast
    exact ⟨p, rfl, hfirst, hlast (by decide) 0 true _⟩

end Extract

end IrFacts
