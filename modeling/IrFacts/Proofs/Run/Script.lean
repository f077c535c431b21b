import IrFacts.Proofs.Run.Action

/-!
# Scripts

A key of some kinds is introduced by a fact: when the key gets its label, this
fact about the label is the next thing that is written. In a script every
introduction is complete, there is no other lookup of such a key that gives it
a label, and there is no other fact of an introducing relation. Whatever else
happens is up to the events that the script is made of.
-/

set_option autoImplicit false

namespace IrFacts

namespace Trap

/-- How the keys begin that are introduced by a fact, and the relation of the fact. -/
def introductions : List (String × String) :=
  [("package;", "packages"), ("modifier;", "modifiers"), ("type;", "primitives"),
    ("kt_type;nullable;", "kt_nullable_types"), ("kt_type;notnull;", "kt_notnull_types"),
    ("array;", "arrays"), ("wildcard;", "wildcards"), ("bound;", "typeBounds"),
    ("loc,", "locations_default")]

/-- The relation of the fact that introduces a key, if there is one. -/
def introducedBy? (key : String) : Option String :=
  (introductions.find? fun i => i.1.toList.isPrefixOf key.toList).map (·.2)

def introducingRelations : List String := introductions.map (·.2)

theorem introducedBy?_append (i : String × String) (hi : i ∈ introductions) (rest : String) :
    introducedBy? (i.1 ++ rest) = some i.2 := by
  simp only [introductions, List.mem_cons, List.not_mem_nil, or_false] at hi
  rcases hi with rfl | rfl | rfl | rfl | rfl | rfl | rfl | rfl | rfl <;>
    simp [introducedBy?, introductions, List.isPrefixOf]

def Unintroduced (start : String) : Prop :=
  ∀ i ∈ introductions, ¬ i.1.toList <+: start.toList ∧ ¬ start.toList <+: i.1.toList

instance (start : String) : Decidable (Unintroduced start) :=
  inferInstanceAs (Decidable (∀ i ∈ introductions, _))

theorem introducedBy?_of_start {start key : String} (h : Unintroduced start)
    (hkey : start.toList <+: key.toList) : introducedBy? key = none := by
  rw [introducedBy?, Option.map_eq_none_iff, List.find?_eq_none]
  intro i hi hprefix
  rcases List.prefix_or_prefix_of_prefix (List.isPrefixOf_iff_prefix.mp hprefix) hkey with hp | hp
  · exact (h i hi).1 hp
  · exact (h i hi).2 hp

theorem mem_introducingRelations {key r : String} (h : introducedBy? key = some r) :
    r ∈ introducingRelations := by
  obtain ⟨i, hi, rfl⟩ := Option.map_eq_some_iff.mp h
  exact List.mem_map.mpr ⟨i, List.mem_of_find?_eq_some hi, rfl⟩

/-- The relations that tell which nodes of code there are, and where a jump goes. -/
def nodeRelations : List String := ["exprs", "stmts", "when_branch", "ktBreakContinueTargets"]

end Trap

/-- The files that places are attributed to, apart from the one that the writer
starts with. -/
inductive Program.IsPlace (p : Program) : String → Prop
  | unknown : p.IsPlace ""
  | source {file : FileId} {entry : FileEntry} : p.file? file = some entry →
      p.IsPlace entry.path
  | binary (id : DeclId) : p.IsPlace (p.binaryPath id)

/-- The keys of a file and of the folders above it. -/
def Path.IsKey (path : Path) (key : String) : Prop :=
  key = path.text ++ ";sourcefile" ∨ ∃ folder ∈ path.parents, key = folder.text ++ ";folder"

namespace Event

def PlainKey (p : Program) (key : String) : Prop :=
  Trap.introducedBy? key = none ∨ ∃ text, p.IsPlace text ∧ (Path.mk text).IsKey key

/-- What happens in an extraction besides introductions. -/
def Plain (p : Program) : Event → Prop
  | .fact f => f.relation ∉ Trap.introducingRelations
  | .lookup key _ => PlainKey p key
  | _ => True

/-- What happens in a projection besides introductions: no node of code is
written, and nothing happens to loops. -/
def Aside (p : Program) : Event → Prop
  | .fact f => f.relation ∉ Trap.introducingRelations ∧ f.relation ∉ Trap.nodeRelations
  | .lookup key _ => PlainKey p key
  | .report problem _ => ∀ jump, problem ≠ .jumpTarget jump
  | .enter _ _ => False
  | .leave _ => False
  | .current _ => False
  | _ => True

theorem plainKey_of_start {p : Program} {start key : String} (h : Trap.Unintroduced start)
    (hkey : start.toList <+: key.toList) : PlainKey p key :=
  Or.inl (Trap.introducedBy?_of_start h hkey)

theorem plainKey_append {p : Program} {start : String} (h : Trap.Unintroduced start)
    (rest : String) : PlainKey p (start ++ rest) :=
  plainKey_of_start h (by rw [String.toList_append]; exact List.prefix_append _ _)

theorem Aside.plain {p : Program} {e : Event} (h : Aside p e) : Plain p e := by
  cases e with
  | fact f => exact h.1
  | lookup key asker => exact h
  | _ => trivial

end Event

/-- Events in which every introduction is complete, and all others are in `R`. -/
inductive Script (R : Event → Prop) : Session → List Event → Prop
  | nil (s : Session) : Script R s []
  | event {s : Session} {e : Event} {es : List Event} :
      R e → Script R (e.step s) es → Script R s (e :: es)
  | introduce {s : Session} {key r : String} {args : List Trap.Arg} {es : List Event} :
      Trap.introducedBy? key = some r → s.table.find? key = none →
      Script R (Event.run [.lookup key none, .fact ⟨r, .label (.number s.table.next) :: args⟩] s)
        es →
      Script R s (.lookup key none :: .fact ⟨r, .label (.number s.table.next) :: args⟩ :: es)

theorem Script.append {R : Event → Prop} {s : Session} {es fs : List Event} (h : Script R s es)
    (k : Script R (Event.run es s) fs) : Script R s (es ++ fs) := by
  induction h with
  | nil s => exact k
  | event he _ ih => exact .event he (ih k)
  | introduce hkey hnone _ ih => exact .introduce hkey hnone (ih k)

theorem Script.mono {R R' : Event → Prop} (hR : ∀ e, R e → R' e) {s : Session}
    {es : List Event} (h : Script R s es) : Script R' s es := by
  induction h with
  | nil s => exact .nil s
  | event he _ ih => exact .event (hR _ he) ih
  | introduce hkey hnone _ ih => exact .introduce hkey hnone ih

/-- An extraction finds the same in both sessions. It does not look at what was written, counted
or scheduled. -/
structure Session.Resembles (s t : Session) : Prop where
  table : s.table = t.table
  target : s.file.target = t.file.target
  locals : s.locals = t.locals
  openLoops : s.openLoops = t.openLoops
  currentFunction : s.currentFunction = t.currentFunction

theorem Session.Resembles.refl (s : Session) : s.Resembles s := ⟨rfl, rfl, rfl, rfl, rfl⟩

namespace Extract

variable {α β : Type} {p : Program} {R : Event → Prop}

/-- What is seen is the same in sessions in which an extraction finds the same. -/
def Permitted (view : Session → α) : Prop := ∀ s t : Session, s.Resembles t → view s = view t

/-- The action is made of single events in `R` and of introductions, and it sees of a session no
more than it may. -/
inductive Scripted (R : Event → Prop) (p : Program) : {α : Type} → Extract α → Prop
  | pure {α : Type} (a : α) : Scripted R p (pure a)
  | throw {α : Type} (e : Stop) : Scripted R p (throw e : Extract α)
  | bind {α β : Type} {m : Extract α} {f : α → Extract β} : Scripted R p m →
      (∀ a, (∃ s t, Ends p s m a t) → Scripted R p (f a)) → Scripted R p (m >>= f)
  | look {β : Type} {f : Session → Extract β} : Permitted f →
      (∀ s, Scripted R p (f s)) → Scripted R p (get >>= f)
  | event {α : Type} {m : Extract α} (e : Event) (view : Session → α) : R e → Permitted view →
      (∀ s, m p s = .ok (view s, e.step s)) → Scripted R p m
  | introduce {key r : String} {args : Label → List Trap.Arg} {more : Label → Extract Unit} :
      Trap.introducedBy? key = some r → (∀ l, Scripted R p (more l)) →
      Scripted R p (labelWith key fun l => write ⟨r, .label l :: args l⟩ >>= fun _ => more l)
  | same {α : Type} {m n : Extract α} : (∀ s, m p s = n p s) → Scripted R p n → Scripted R p m

theorem script_single {s : Session} {e : Event} (h : R e) : Script R s [e] := .event h (.nil _)

theorem Scripted.runs {m : Extract α} (h : Scripted R p m) {s s' : Session} {a : α}
    (he : Ends p s m a s') : ∃ es, Script R s es ∧ Event.run es s = s' := by
  induction h generalizing s s' with
  | pure a =>
    obtain ⟨-, rfl⟩ := ends_pure.mp he
    exact ⟨[], .nil _, rfl⟩
  | throw e => exact absurd he ends_throw
  | bind hm hf ihm ihf =>
    obtain ⟨a, t, ha, hb⟩ := ends_bind.mp he
    obtain ⟨es, hes, rfl⟩ := ihm ha
    obtain ⟨fs, hfs, rfl⟩ := ihf a ⟨s, _, ha⟩ hb
    exact ⟨es ++ fs, hes.append hfs, Event.run_append es fs s⟩
  | look hf h ih => exact ih s (ends_get_bind.mp he)
  | event e view hR hview hm =>
    have hstep : s' = e.step s := by
      cases (hm s).symm.trans he
      rfl
    exact ⟨[e], script_single hR, hstep.symm⟩
  | introduce hkey hmore ih =>
    rcases (ends_labelWith none).mp he with ⟨-, rfl⟩ | ⟨hnone, rfl, hdefine⟩
    · exact ⟨[], .nil _, rfl⟩
    · obtain ⟨_, t, hwrite, hdefine⟩ := ends_bind.mp hdefine
      obtain rfl := ends_write.mp hwrite
      obtain ⟨es, hes, hrun⟩ := ih _ hdefine
      exact ⟨_, .introduce hkey hnone hes, hrun⟩
  | same hsame h ih => exact ih ((hsame s).symm.trans he)

theorem Scripted.mono {R' : Event → Prop} {m : Extract α} (h : Scripted R p m)
    (hR : ∀ e, R e → R' e) : Scripted R' p m := by
  induction h with
  | pure a => exact .pure a
  | throw e => exact .throw e
  | bind _ _ ihm ihf => exact .bind ihm ihf
  | look hf _ ih => exact .look hf ih
  | event e view he hview hm => exact .event e view (hR e he) hview hm
  | introduce hkey _ ih => exact .introduce hkey ih
  | same hsame _ ih => exact .same hsame ih

theorem scripted_bind {m : Extract α} {f : α → Extract β} (hm : Scripted R p m)
    (hf : ∀ a, Scripted R p (f a)) : Scripted R p (m >>= f) := .bind hm fun a _ => hf a

theorem scripted_bind_of {m : Extract α} {f : α → Extract β} {Q : α → Prop}
    (hm : Scripted R p m) (hq : ∀ s a s', Ends p s m a s' → Q a)
    (hf : ∀ a, Q a → Scripted R p (f a)) : Scripted R p (m >>= f) :=
  .bind hm fun a ⟨s, t, ha⟩ => hf a (hq s a t ha)

theorem scripted_read {f : Program → Extract β} (h : Scripted R p (f p)) :
    Scripted R p (read >>= f) := .same (n := f p) (fun _ => rfl) h

theorem scripted_ite {c : Prop} [Decidable c] {m n : Extract α} (hm : Scripted R p m)
    (hn : Scripted R p n) : Scripted R p (if c then m else n) := by
  split
  · exact hm
  · exact hn

theorem scripted_when_bind {c : Prop} [Decidable c] {m : Extract Unit} {f : Unit → Extract β}
    (hm : Scripted R p m) (hf : Scripted R p (f ())) :
    Scripted R p (if c then m >>= f else f ()) :=
  scripted_ite (scripted_bind hm fun _ => hf) hf

theorem scripted_forM {as : List α} {f : α → Extract PUnit} (h : ∀ a, Scripted R p (f a)) :
    Scripted R p (as.forM f) := by
  induction as with
  | nil => exact .pure _
  | cons a as ih => exact scripted_bind (h a) fun _ => ih

/-! ## Single actions -/

theorem scripted_write {f : Trap.Fact} (h : R (.fact f)) : Scripted R p (write f) :=
  .event (.fact f) (fun _ => ()) h (fun _ _ _ => rfl) fun _ => rfl

theorem scripted_fresh (h : R .fresh) : Scripted R p fresh :=
  .event .fresh (fun s => s.table.fresh.1) h
    (fun _ _ h => congrArg (·.fresh.1) h.table) fun _ => rfl

theorem scripted_find? (key : String) : Scripted R p (find? key) :=
  .look (fun _ _ h => congrArg (fun t => pure (t.find? key)) h.table) fun _ => .pure _

theorem lookup_fst (w : Trap.Writer) (key : String) :
    (w.lookup key).1 = (w.labels.lookup key).1 := by
  rw [Trap.Writer.lookup]
  rcases w.labels.lookup key with ⟨_ | _, _⟩ <;> rfl

theorem permitted_lookup (key : String) : Permitted fun s => (s.file.writer.lookup key).1 := by
  intro s t h
  have htable : s.file.writer.labels = t.file.writer.labels := h.table
  dsimp only
  rw [lookup_fst, lookup_fst, htable]

theorem scripted_lookup {key : String} (h : R (.lookup key none)) :
    Scripted R p (onWriter (·.lookup key)) :=
  .event (.lookup key none) _ h (permitted_lookup key) fun _ => rfl

theorem scripted_labelWith {key : String} {define : Label → Extract Unit}
    (h : R (.lookup key none)) (hd : ∀ l, Scripted R p (define l)) :
    Scripted R p (labelWith key define) := by
  apply scripted_bind (scripted_lookup h)
  intro found
  cases found with
  | existing l => exact .pure l
  | created l => exact scripted_bind (hd l) fun _ => .pure l

theorem scripted_labelFor {key : String} (h : R (.lookup key none)) :
    Scripted R p (labelFor key) := by
  rw [labelFor_eq]
  exact scripted_labelWith h fun _ => .pure ()

/-- A key that is introduced by a fact where the program is read first, and of which more may be
said after that. -/
theorem scripted_introduce_read {key r : String} {args : Program → Label → List Trap.Arg}
    {more : Program → Label → Extract Unit} (hkey : Trap.introducedBy? key = some r)
    (hmore : ∀ l, Scripted R p (more p l)) :
    Scripted R p (labelWith key fun l =>
      read >>= fun q => write ⟨r, .label l :: args q l⟩ >>= fun _ => more q l) := by
  have hintroduce : Scripted R p (labelWith key fun l =>
      write ⟨r, .label l :: args p l⟩ >>= fun _ => more p l) := .introduce hkey hmore
  refine .same (fun s => ?_) hintroduce
  rw [labelWith_apply, labelWith_apply]
  rfl

theorem scripted_introduceOnly {key r : String} {args : Label → List Trap.Arg}
    (hkey : Trap.introducedBy? key = some r) :
    Scripted R p (labelWith key fun l => write ⟨r, .label l :: args l⟩) :=
  have hintroduce : Scripted R p (labelWith key fun l =>
      write ⟨r, .label l :: args l⟩ >>= fun _ => pure ()) := .introduce hkey fun _ => .pure ()
  hintroduce

theorem scripted_reportAt {problem : Problem} {location : Label}
    (h : R (.report problem location)) : Scripted R p (reportAt problem location) :=
  .event (.report problem location) (fun _ => ()) h (fun _ _ _ => rfl) fun _ => rfl

theorem scripted_schedule {id : DeclId} (h : R (.schedule id none)) :
    Scripted R p (schedule id) :=
  .event (.schedule id none) (fun _ => ()) h (fun _ _ _ => rfl) fun _ => rfl

theorem scripted_modify {f : Session → Session} (e : Event) (h : R e)
    (hf : ∀ s, f s = e.step s) : Scripted R p (modify f : Extract PUnit) :=
  .event e (fun _ => ⟨⟩) h (fun _ _ _ => rfl) fun s => by rw [← hf]; rfl

/-! ## Files and places -/

theorem aside_fact {r : String} {args : List Trap.Arg} (hi : r ∉ Trap.introducingRelations)
    (hn : r ∉ Trap.nodeRelations) : Event.Aside p (.fact ⟨r, args⟩) := ⟨hi, hn⟩

theorem scripted_locationIn (file : Label) (r : Trap.Region) :
    Scripted R p (onFile (·.locationIn file r)) := by
  rw [locationIn_eq]
  apply scripted_introduceOnly
  simp only [Trap.Region.key, String.append_assoc]
  exact Trap.introducedBy?_append ("loc,", "locations_default") (by decide) _

theorem scripted_wholeFile : Scripted R p wholeFile := by
  rw [wholeFile_eq]
  exact .look (fun s t h => by rw [h.target]) fun _ => scripted_locationIn _ _

theorem scripted_unknownLocation : Scripted (Event.Aside p) p unknownLocation := by
  rw [unknownLocation_eq, unknownFile_eq]
  refine scripted_bind (scripted_labelWith (Or.inr ⟨"", .unknown, Or.inl rfl⟩) fun _ => ?_)
    fun file => scripted_locationIn _ _
  exact scripted_write (aside_fact (by decide) (by decide))

theorem scripted_placeIn (target : Trap.Target) (span : Span) :
    Scripted (Event.Aside p) p (placeIn target span) := by
  unfold placeIn
  split
  · exact scripted_locationIn _ _
  · apply scripted_ite scripted_unknownLocation
    split
    · exact scripted_locationIn _ _
    · exact .throw _

theorem scripted_location (span : Span) : Scripted (Event.Aside p) p (location span) := by
  rw [location_eq]
  exact .look (fun _ _ h => congrArg (placeIn · span) h.target) fun _ => scripted_placeIn _ _

theorem scripted_locate (entity : Label) (span : Span) :
    Scripted (Event.Aside p) p (locate entity span) :=
  scripted_bind (scripted_location span) fun _ =>
    scripted_write (aside_fact (by decide) (by decide))

theorem scripted_complain {problem : Problem} (h : ∀ jump, problem ≠ .jumpTarget jump) :
    Scripted (Event.Aside p) p (complain problem) :=
  scripted_bind scripted_unknownLocation fun _ => scripted_reportAt h

theorem scripted_complainAt {problem : Problem} (h : ∀ jump, problem ≠ .jumpTarget jump)
    (span : Span) : Scripted (Event.Aside p) p (complainAt problem span) :=
  scripted_bind (scripted_location span) fun _ => scripted_reportAt h

def fileRelations : List String := ["files", "folders", "containerparent"]

/-- Entering folders takes only the keys of these folders. -/
theorem scripted_enterFolders {child : Label} {folders : List Path}
    (hfact : ∀ f : Trap.Fact, f.relation ∈ fileRelations → R (.fact f))
    (h : ∀ folder ∈ folders, R (.lookup (folder.text ++ ";folder") none)) :
    Scripted R p (onWriter fun w => ((), w.enterFolders child folders)) := by
  have parent (l child : Label) : Scripted R p (write (.containerparent l child)) :=
    scripted_write (hfact _ (by simp [Trap.Fact.containerparent, fileRelations]))
  induction folders generalizing child with
  | nil =>
    rw [enterFolders_nil]
    exact .pure _
  | cons folder rest ih =>
    rw [enterFolders_cons]
    apply scripted_ite (.pure _)
    apply scripted_bind (scripted_lookup (h folder (by simp)))
    intro found
    cases found with
    | existing l => exact parent l child
    | created l =>
      refine scripted_bind (scripted_write (hfact _ ?_)) fun _ => ?_
      · simp [Trap.Fact.folders, fileRelations]
      exact scripted_bind (parent l child) fun _ => ih fun q hq => h q (by simp [hq])

theorem scripted_fileLabel {text : String} (populate : Bool)
    (hfact : ∀ f : Trap.Fact, f.relation ∈ fileRelations → R (.fact f))
    (h : ∀ key, (Path.mk text).IsKey key → R (.lookup key none)) :
    Scripted R p (onWriter (·.fileLabel text populate)) := by
  rw [fileLabel_eq]
  refine scripted_labelWith (h _ (Or.inl rfl)) fun l => scripted_ite ?_ (.pure _)
  refine scripted_bind (scripted_write (hfact _ ?_)) fun _ => ?_
  · simp [Trap.Fact.files, fileRelations]
  exact scripted_enterFolders hfact fun folder hfolder => h _ (Or.inr ⟨folder, hfolder, rfl⟩)

theorem aside_fileFact (f : Trap.Fact) (hf : f.relation ∈ fileRelations) :
    Event.Aside p (.fact f) := by
  have hdisjoint : ∀ r ∈ fileRelations,
      r ∉ Trap.introducingRelations ∧ r ∉ Trap.nodeRelations := by decide
  exact hdisjoint f.relation hf

theorem scripted_restore {target : Trap.Target} :
    Scripted (Event.Aside p) p (onFile fun file => ((), file.restore target)) :=
  .event (.target target) (fun _ => ()) trivial (fun _ _ _ => rfl) fun _ => rfl

theorem scripted_retarget {text : String} {lines : Option LineTable} {populate : Bool}
    (htext : p.IsPlace text) :
    Scripted (Event.Aside p) p (onFile (·.retarget text lines populate)) := by
  rw [retarget_eq]
  refine .look (fun _ _ h => by rw [h.target]) fun _ => ?_
  refine scripted_bind (scripted_fileLabel populate aside_fileFact fun key hkey =>
    Or.inr ⟨text, htext, hkey⟩) fun _ => ?_
  exact scripted_bind scripted_restore fun _ => .pure _

theorem scripted_inFile {text : String} {lines : Option LineTable} {populate : Bool}
    {action : Extract α} (htext : p.IsPlace text) (ha : Scripted (Event.Aside p) p action) :
    Scripted (Event.Aside p) p (do
      let saved ← onFile (·.retarget text lines populate)
      let result ← action
      onFile fun file => ((), file.restore saved)
      return result) :=
  scripted_bind (scripted_retarget htext) fun _ => scripted_bind ha fun _ =>
    scripted_bind scripted_restore fun _ => .pure _

theorem scripted_inFileOf (id : DeclId) (populate : Bool) {action : Extract α}
    (ha : Scripted (Event.Aside p) p action) :
    Scripted (Event.Aside p) p (inFileOf id populate action) := by
  apply scripted_read
  dsimp only
  split
  · next entry he =>
    split at he
    · cases he
    · obtain ⟨file, -, hf⟩ := Option.bind_eq_some_iff.mp he
      exact scripted_inFile (.source hf) ha
  · exact scripted_inFile (.binary id) ha

end Extract

end IrFacts
