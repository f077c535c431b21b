import IrFacts.Proofs.Run.Event

/-!
# Completed actions

An action of an extraction either stops or ends in a session with a result.
The lemmas here take a completed action apart, one for each way in which
actions are put together, so that no other proof opens the monad.
-/

set_option autoImplicit false

namespace IrFacts

namespace Extract

variable {α β : Type} {p : Program} {s s' : Session}

/-- Started in `s`, the action ends in `s'` with the result `a`. -/
def Ends (p : Program) (s : Session) (m : Extract α) (a : α) (s' : Session) : Prop :=
  m p s = .ok (a, s')

theorem ends_of_isOk {m : Extract α} (h : (m p s).isOk = true) : ∃ a s', Ends p s m a s' := by
  cases hr : m p s with
  | error e =>
    rw [hr] at h
    cases h
  | ok r => exact ⟨r.1, r.2, hr⟩

theorem ends_of_map {m : Extract α} {f : α × Session → β} {b : β}
    (h : (m p s).toOption.map f = some b) : ∃ a s', Ends p s m a s' ∧ f (a, s') = b := by
  cases hr : m p s with
  | error e =>
    rw [hr] at h
    cases h
  | ok r =>
    rw [hr] at h
    exact ⟨r.1, r.2, hr, Option.some.inj h⟩

theorem ends_unique {m : Extract α} {a b : α} {t : Session} (h : Ends p s m a s')
    (k : Ends p s m b t) : a = b ∧ s' = t := by
  cases h.symm.trans k
  exact ⟨rfl, rfl⟩

/-! ## How the primitives run -/

theorem get_bind_apply (f : Session → Extract α) (p : Program) (s : Session) :
    (get >>= f) p s = f s p s := rfl

theorem onFile_apply (f : Trap.FileWriter → α × Trap.FileWriter) (p : Program) (s : Session) :
    onFile f p s = .ok ((f s.file).1, { s with file := (f s.file).2 }) := rfl

theorem onWriter_apply (f : Trap.Writer → α × Trap.Writer) (p : Program) (s : Session) :
    onWriter f p s = .ok ((f s.file.writer).1, s.mapWriter fun w => (f w).2) := rfl

theorem onFile_bind_apply (f : Trap.FileWriter → α × Trap.FileWriter) (g : α → Extract β)
    (p : Program) (s : Session) :
    (onFile f >>= g) p s = g (f s.file).1 p { s with file := (f s.file).2 } := rfl

theorem onWriter_bind_apply (f : Trap.Writer → α × Trap.Writer) (g : α → Extract β)
    (p : Program) (s : Session) :
    (onWriter f >>= g) p s = g (f s.file.writer).1 p (s.mapWriter fun w => (f w).2) := rfl

theorem ends_pure {a b : α} : Ends p s (pure a) b s' ↔ b = a ∧ s' = s := by
  have h : (pure a : Extract α) p s = .ok (a, s) := rfl
  simp only [Ends, h, Except.ok.injEq, Prod.mk.injEq]
  constructor <;> (rintro ⟨rfl, rfl⟩; exact ⟨rfl, rfl⟩)

theorem ends_bind {m : Extract α} {f : α → Extract β} {b : β} :
    Ends p s (m >>= f) b s' ↔ ∃ a t, Ends p s m a t ∧ Ends p t (f a) b s' := by
  simp only [Ends, bind, ReaderT.bind, StateT.bind, Except.bind]
  cases m p s with
  | error e => simp
  | ok r =>
    constructor
    · intro hb
      exact ⟨r.1, r.2, rfl, hb⟩
    · rintro ⟨a, t, hr, hb⟩
      cases hr
      exact hb

theorem when_bind {c : Prop} [Decidable c] (m : Extract Unit) (f : Unit → Extract β) :
    (if c then m >>= f else f ()) = (if c then m else pure ()) >>= f := by
  split <;> rfl

theorem ends_read {q : Program} : Ends p s (read : Extract Program) q s' ↔ q = p ∧ s' = s :=
  ends_pure (p := p)

theorem ends_get {t : Session} : Ends p s (get : Extract Session) t s' ↔ t = s ∧ s' = s :=
  ends_pure (p := p)

theorem ends_read_bind {f : Program → Extract β} {b : β} :
    Ends p s (read >>= f) b s' ↔ Ends p s (f p) b s' := by
  rw [ends_bind]
  constructor
  · rintro ⟨q, t, hq, hb⟩
    obtain ⟨rfl, rfl⟩ := ends_read.mp hq
    exact hb
  · exact fun h => ⟨p, s, ends_read.mpr ⟨rfl, rfl⟩, h⟩

theorem ends_get_bind {f : Session → Extract β} {b : β} :
    Ends p s (get >>= f) b s' ↔ Ends p s (f s) b s' := by
  rw [ends_bind]
  constructor
  · rintro ⟨q, t, hq, hb⟩
    obtain ⟨rfl, rfl⟩ := ends_get.mp hq
    exact hb
  · exact fun h => ⟨s, s, ends_get.mpr ⟨rfl, rfl⟩, h⟩

theorem ends_modify {f : Session → Session} {u : PUnit} :
    Ends p s (modify f : Extract PUnit) u s' ↔ s' = f s := by
  have h : (modify f : Extract PUnit) p s = .ok (⟨⟩, f s) := rfl
  simp only [Ends, h, Except.ok.injEq, Prod.mk.injEq]
  exact ⟨fun h => h.2.symm, fun h => ⟨trivial, h.symm⟩⟩

theorem ends_throw {e : Stop} {a : α} : ¬ Ends p s (throw e : Extract α) a s' := by
  intro h
  cases h

theorem ends_onFile {f : Trap.FileWriter → α × Trap.FileWriter} {a : α} :
    Ends p s (onFile f) a s' ↔ a = (f s.file).1 ∧ s' = { s with file := (f s.file).2 } := by
  simp only [Ends, onFile_apply, Except.ok.injEq, Prod.mk.injEq]
  exact ⟨fun h => ⟨h.1.symm, h.2.symm⟩, fun h => ⟨h.1.symm, h.2.symm⟩⟩

theorem ends_onWriter {f : Trap.Writer → α × Trap.Writer} {a : α} :
    Ends p s (onWriter f) a s' ↔
      a = (f s.file.writer).1 ∧ s' = s.mapWriter fun w => (f w).2 :=
  ends_onFile

/-! ## Single events -/

theorem ends_write {f : Trap.Fact} {u : Unit} :
    Ends p s (write f) u s' ↔ s' = (Event.fact f).step s := by
  simp only [write, ends_onWriter, true_and]
  rfl

theorem ends_fresh {l : Label} :
    Ends p s fresh l s' ↔ l = .number s.table.next ∧ s' = Event.fresh.step s :=
  ends_onWriter

theorem ends_lookup (asker : Option DeclId) {key : String} {found : Lookup} :
    Ends p s (onWriter (·.lookup key)) found s' ↔
      found = (s.file.writer.lookup key).1 ∧ s' = (Event.lookup key asker).step s :=
  ends_onWriter

theorem ends_labelFor (asker : Option DeclId) {key : String} {l : Label} :
    Ends p s (labelFor key) l s' ↔
      l = (s.file.writer.lookup key).1.label ∧ s' = (Event.lookup key asker).step s :=
  ends_onWriter

theorem ends_find? {key : String} {found : Option Label} :
    Ends p s (find? key) found s' ↔ found = s.table.find? key ∧ s' = s :=
  ends_pure (p := p)

theorem ends_reportAt {problem : Problem} {location : Label} {u : Unit} :
    Ends p s (reportAt problem location) u s' ↔ s' = (Event.report problem location).step s :=
  ends_modify

theorem ends_schedule (function : Option DeclId) {id : DeclId} {u : Unit} :
    Ends p s (schedule id) u s' ↔ s' = (Event.schedule id function).step s :=
  ends_modify

/-! ## Labels with definitions -/

theorem labelWith_apply (key : String) (define : Label → Extract Unit) (p : Program)
    (s : Session) : labelWith key define p s =
      match s.file.writer.lookup key with
      | (.existing l, w) => .ok (l, s.mapWriter fun _ => w)
      | (.created l, w) => (define l p (s.mapWriter fun _ => w)).map fun r => (l, r.2) := by
  rw [labelWith, onWriter_bind_apply, Session.mapWriter]
  rcases s.file.writer.lookup key with ⟨_ | _, w⟩ <;> rfl

theorem labelFor_eq (key : String) : labelFor key = labelWith key fun _ => pure () := by
  funext p s
  rw [labelWith_apply, labelFor, onWriter_apply, Session.mapWriter, Trap.Writer.labelFor]
  rcases s.file.writer.lookup key with ⟨_ | _, w⟩ <;> rfl

theorem ends_labelWith (asker : Option DeclId) {key : String} {define : Label → Extract Unit}
    {l : Label} : Ends p s (labelWith key define) l s' ↔
      (s.table.find? key = some l ∧ s' = s) ∨
      (s.table.find? key = none ∧ l = .number s.table.next ∧
        Ends p ((Event.lookup key asker).step s) (define l) () s') := by
  have hstep : (Event.lookup key asker).step s = s.mapWriter fun _ =>
      (s.file.writer.lookup key).2 := rfl
  simp only [Ends, labelWith_apply, hstep]
  cases hk : s.table.find? key with
  | some m =>
    have hw : s.file.writer.lookup key = (.existing m, s.file.writer) := by
      simp only [Trap.Writer.lookup, LabelTable.lookup, hk]
    simp only [hw, Except.ok.injEq, Prod.mk.injEq, Option.some.injEq, reduceCtorEq, false_and,
      or_false]
    constructor <;> (rintro ⟨rfl, rfl⟩; exact ⟨rfl, rfl⟩)
  | none =>
    have hw : (s.file.writer.lookup key).1 = .created (.number s.table.next) := by
      simp only [Trap.Writer.lookup, LabelTable.lookup, hk]
    rcases hl : s.file.writer.lookup key with ⟨found, w⟩
    rw [hl] at hw
    subst hw
    simp only [reduceCtorEq, false_and, false_or, true_and]
    constructor
    · intro h
      cases hr : define (.number s.table.next) p (s.mapWriter fun _ => w) with
      | error e =>
        rw [hr] at h
        cases h
      | ok r =>
        rw [hr] at h
        cases h
        exact ⟨rfl, hr⟩
    · rintro ⟨rfl, h⟩
      rw [h]
      rfl

/-! ## Files and places, as actions -/

theorem enterFolders_nil (child : Label) :
    onWriter (fun w => ((), w.enterFolders child [])) = pure () := rfl

theorem enterFolders_cons (child : Label) (folder : Path) (rest : List Path) :
    onWriter (fun w => ((), w.enterFolders child (folder :: rest))) =
      if folder.text = "" then pure ()
      else onWriter (·.lookup (folder.text ++ ";folder")) >>= fun found =>
        match found with
        | .existing l => write (.containerparent l child)
        | .created l => (do
          write (.folders l folder.text)
          write (.containerparent l child)
          onWriter fun w => ((), w.enterFolders l rest)) := by
  funext p s
  split
  · next h =>
    simp only [Trap.Writer.enterFolders, if_pos h]
    rfl
  · next h =>
    rw [onWriter_apply, onWriter_bind_apply, Session.mapWriter, Session.mapWriter]
    simp only [Trap.Writer.enterFolders, if_neg h]
    rcases s.file.writer.lookup (folder.text ++ ";folder") with ⟨_ | _, w⟩ <;> rfl

theorem fileLabel_eq (text : String) (populate : Bool) :
    onWriter (·.fileLabel text populate) = labelWith (text ++ ";sourcefile") fun l =>
      if populate then (do
        write (.files l text (Path.mk text).stem (Path.mk text).extension 0)
        onWriter fun w => ((), w.enterFolders l (Path.mk text).parents))
      else pure () := by
  funext p s
  rw [labelWith_apply, onWriter_apply, Session.mapWriter, Trap.Writer.fileLabel]
  rcases s.file.writer.lookup (text ++ ";sourcefile") with ⟨_ | _, w⟩
  · rfl
  · cases populate <;> rfl

theorem locationIn_eq (file : Label) (r : Trap.Region) :
    onFile (·.locationIn file r) = labelWith (r.key file) fun l =>
      write (.locationsDefault l file r.startLine r.startColumn r.endLine r.endColumn) := by
  funext p s
  rw [labelWith_apply, onFile_apply, Trap.FileWriter.locationIn]
  rcases s.file.writer.lookup (r.key file) with ⟨_ | _, w⟩ <;> rfl

theorem wholeFile_eq :
    wholeFile = get >>= fun s => onFile (·.locationIn s.file.target.label .whole) := by
  funext p s
  rw [get_bind_apply, wholeFile, onFile_apply, onFile_apply, Trap.FileWriter.wholeFile]

theorem unknownFile_eq :
    onFile (·.unknownFile) = labelWith ";sourcefile" fun l => write (.files l "" "" "" 0) := by
  funext p s
  rw [labelWith_apply, onFile_apply, Trap.FileWriter.unknownFile]
  rcases s.file.writer.lookup ";sourcefile" with ⟨_ | _, w⟩ <;> rfl

theorem unknownLocation_eq :
    unknownLocation = onFile (·.unknownFile) >>= fun file =>
      onFile (·.locationIn file .whole) := by
  funext p s
  rw [onFile_bind_apply, unknownLocation, onFile_apply, onFile_apply,
    Trap.FileWriter.unknownLocation]

def placeIn (target : Trap.Target) (span : Span) : Extract Label :=
  match target.lines with
  | none => onFile (·.locationIn target.label .whole)
  | some lines =>
    if span.isUndefined then unknownLocation
    else match Trap.Region.ofSpan? lines span with
      | some r => onFile (·.locationIn target.label r)
      | none => throw Stop.noLines

theorem location_eq (span : Span) :
    location span = get >>= fun s => placeIn s.file.target span := by
  funext p s
  rw [get_bind_apply, location, get_bind_apply, Trap.FileWriter.location?, placeIn]
  cases s.file.target.lines with
  | none => rfl
  | some lines =>
    by_cases hu : span.isUndefined = true
    · simp only [if_pos hu]
      rfl
    · simp only [if_neg hu]
      cases Trap.Region.ofSpan? lines span <;> rfl

theorem retarget_eq (path : String) (lines : Option LineTable) (populate : Bool) :
    onFile (·.retarget path lines populate) = get >>= fun s =>
      onWriter (·.fileLabel path populate) >>= fun label =>
        onFile (fun file => ((), file.restore { path, label, lines })) >>= fun _ =>
          pure s.file.target := by
  funext p s
  rw [get_bind_apply, onWriter_bind_apply, onFile_bind_apply, onFile_apply]
  rfl

theorem ends_retarget {path : String} {lines : Option LineTable} {populate : Bool}
    {saved : Trap.Target} : Ends p s (onFile (·.retarget path lines populate)) saved s' ↔
      saved = s.file.target ∧ ∃ label t, Ends p s (onWriter (·.fileLabel path populate)) label t ∧
        s' = (Event.target { path, label, lines }).step t := by
  simp only [ends_onFile, ends_onWriter]
  constructor
  · rintro ⟨rfl, rfl⟩
    exact ⟨rfl, _, _, ⟨rfl, rfl⟩, rfl⟩
  · rintro ⟨rfl, _, _, ⟨rfl, rfl⟩, rfl⟩
    exact ⟨rfl, rfl⟩

theorem ends_restore {saved : Trap.Target} {u : Unit} :
    Ends p s (onFile fun file => ((), file.restore saved)) u s' ↔
      s' = (Event.target saved).step s := by
  simp only [ends_onFile, true_and]
  rfl

end Extract

end IrFacts
