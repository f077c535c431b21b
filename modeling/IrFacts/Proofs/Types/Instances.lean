import IrFacts.Proofs.Labels.Recall
import IrFacts.Proofs.Run.Account
import IrFacts.Proofs.Trap.Commands

/-!
# Classes with arguments

A class with arguments has a label of its own, and its facts are written when the
label is made. The account of these facts says of each such label that all of them
are written between the lookup that makes it and the end of what it starts, and
none before or after.
-/

set_option autoImplicit false

namespace IrFacts

namespace Trap

/-- Relations that tell what a class is, where it is, and what it extends. -/
def instanceRelations : List String :=
  ["classes", "interfaces", "extendsReftype", "hasLocation", "isParameterized", "erasure"]

def Arg.isLabel (l : Label) : Arg → Bool
  | .label m => decide (m = l)
  | _ => false

/-- Whether a fact tells this of the label. An argument of a class stands before the class. -/
def Fact.tellsOf (l : Label) (f : Fact) : Bool :=
  (decide (f.relation ∈ instanceRelations) && f.args.head?.any (·.isLabel l)) ||
    (decide (f.relation = "typeArgs") && f.args.getLast?.any (·.isLabel l))

def factsOf (l : Label) (lines : List Line) : List Fact :=
  (lines.filterMap Line.fact?).filter (·.tellsOf l)

theorem factsOf_append (l : Label) (lines more : List Line) :
    factsOf l (lines ++ more) = factsOf l lines ++ factsOf l more := by
  simp [factsOf]

theorem factsOf_fact (l : Label) (f : Fact) :
    factsOf l [.fact f] = if f.tellsOf l then [f] else [] := by
  simp [factsOf, Line.fact?, List.filter_cons]

theorem mem_instanceRelations {r : String} (h : r ∈ instanceRelations) :
    r ∈ subjectRelations ∨ r ∈ ["isParameterized", "erasure"] := by
  simp only [instanceRelations, subjectRelations, List.mem_cons, List.not_mem_nil, or_false] at *
  tauto

theorem Fact.subject_of_tellsOf {l : Label} {f : Fact} (h : f.tellsOf l = true)
    (hf : f.relation ∉ ["typeArgs", "isParameterized", "erasure"]) :
    f.relation ∈ subjectRelations ∧ ∃ args, f.args = .label l :: args := by
  obtain ⟨r, args⟩ := f
  have hr : r ≠ "typeArgs" := fun he => hf (by simp [he])
  simp only [tellsOf, hr, decide_false, Bool.false_and, Bool.or_false, Bool.and_eq_true,
    decide_eq_true_eq] at h
  obtain ⟨hmem, hhead⟩ := h
  refine ⟨(mem_instanceRelations hmem).resolve_right fun hr => hf (by simp_all), ?_⟩
  rcases args with _ | ⟨a, args⟩
  · cases hhead
  · cases a with
    | label m =>
      obtain rfl : m = l := by simpa [Arg.isLabel] using hhead
      exact ⟨args, rfl⟩
    | _ => cases hhead

end Trap

/-! ## What there is to tell -/

/-- The class that a type is over, with its arguments. -/
def IrType.classUse? (type : IrType) : Option (DeclId × List TypeArgument) :=
  match type.classId?, type.simple? with
  | some id, some s => some (id, s.arguments)
  | _, _ => none

/-- Where a span is in a file: the name of the file, and the stretch. -/
def Trap.placed? (path : String) (lines : Option LineTable) (span : Span) :
    Option (String × Region) :=
  match lines with
  | none => some (path, .whole)
  | some lines => if span.isUndefined then some ("", .whole)
      else (Region.ofSpan? lines span).map fun r => (path, r)

/-- The label of the place of a span in a file. -/
def LabelTable.PlaceIn (t : LabelTable) (path : String) (lines : Option LineTable) (span : Span)
    (place : Label) : Prop :=
  ∃ text r file, Trap.placed? path lines span = some (text, r) ∧
    t.find? (text ++ ";sourcefile") = some file ∧ t.find? (r.key file) = some place

theorem LabelTable.PlaceIn.mono {t u : LabelTable} {path : String} {lines : Option LineTable}
    {span : Span} {place : Label} (h : t.PlaceIn path lines span place) (hle : t.Le u) :
    u.PlaceIn path lines span place := by
  obtain ⟨text, r, file, hplaced, hfile, hkey⟩ := h
  exact ⟨text, r, file, hplaced, hle _ _ hfile, hle _ _ hkey⟩

/-- What is told of a class with arguments. -/
structure InstanceFacts where
  kind : ClassKind
  name : String
  package : Label
  source : Label
  arguments : List Label
  supers : List Label
  place : Label

/-- All the facts of the class, in their order. -/
def InstanceFacts.facts (i : InstanceFacts) (l : Label) : List Trap.Fact :=
  (if i.kind = .interface then .interfaces l i.name i.package i.source
    else .classes l i.name i.package i.source) ::
  ((i.arguments.zipIdx.map fun e => .typeArgs e.1 e.2 l) ++
    ([.isParameterized l, .erasure l i.source] ++
      ((i.supers.map fun super => .extendsReftype l super) ++ [.hasLocation l i.place])))

namespace Program

variable (p : Program)

def InstanceKey (key : String) : Prop :=
  ∃ id labels, labels ≠ [] ∧ key = "class;" ++ p.instanceText id labels

/-- The source file that declares a class, unless the class is external. -/
def homeEntry? (id : DeclId) : Option FileEntry :=
  if p.isExternal id then none else (p.fileOf? id).bind p.file?

/-- The file that declares a class: its source file, or its class file, which has no lines. -/
def homePath (id : DeclId) : String := ((p.homeEntry? id).map (·.path)).getD (p.binaryPath id)

def homeLines (id : DeclId) : Option LineTable := (p.homeEntry? id).map (·.lines)

/-- The label of a class that is extended, with as many arguments as there are. -/
def SuperLabel (t : LabelTable) (use : DeclId × List TypeArgument) (l : Label) : Prop :=
  ∃ labels : List Label, labels.length = use.2.length ∧
    t.find? ("class;" ++ p.instanceText (p.onHost use.1) labels) = some l

/-- In this table it is what there is to tell of the class. -/
structure Describes (t : LabelTable) (id : DeclId) (c : ClassDecl) (span : Span)
    (arguments : List TypeArgument) (i : InstanceFacts) : Prop where
  kind : i.kind = c.kind
  name : i.name = p.classShortName id arguments
  package : t.find? ("package;" ++ p.packageOf id) = some i.package
  source : t.find? ("class;" ++ p.nameInKeys id) = some i.source
  arguments : List.Forall₂ (Extract.Answered p t) arguments i.arguments
  supers : List.Forall₂ (p.SuperLabel t) (c.superTypes.filterMap IrType.classUse?) i.supers
  place : t.PlaceIn (p.homePath id) (p.homeLines id) span i.place

/-- These are the facts of a class whose arguments have these labels. -/
def TellsOf (t : LabelTable) (id : DeclId) (labels : List Label) (l : Label)
    (facts : List Trap.Fact) : Prop :=
  ∃ arguments, List.Forall₂ (Extract.Answered p t) arguments labels ∧
    ∀ d c, p.decl? id = some d → p.class? id = some c →
      ∃ i, p.Describes t id c d.span arguments i ∧ i.arguments = labels ∧ facts = i.facts l

variable {p} {t u : LabelTable}

theorem SuperLabel.mono {use : DeclId × List TypeArgument} {l : Label}
    (h : p.SuperLabel t use l) (hle : t.Le u) : p.SuperLabel u use l := by
  obtain ⟨labels, hlength, hkey⟩ := h
  exact ⟨labels, hlength, hle _ _ hkey⟩

theorem Describes.mono {id : DeclId} {c : ClassDecl} {span : Span} {arguments : List TypeArgument}
    {i : InstanceFacts} (h : p.Describes t id c span arguments i) (hle : t.Le u) :
    p.Describes u id c span arguments i where
  kind := h.kind
  name := h.name
  package := hle _ _ h.package
  source := hle _ _ h.source
  arguments := h.arguments.imp fun _ _ ha => ha.mono hle
  supers := h.supers.imp fun _ _ hl => hl.mono hle
  place := h.place.mono hle

theorem TellsOf.mono {id : DeclId} {labels : List Label} {l : Label} {facts : List Trap.Fact}
    (h : p.TellsOf t id labels l facts) (hle : t.Le u) : p.TellsOf u id labels l facts := by
  obtain ⟨arguments, hlabels, hfacts⟩ := h
  refine ⟨arguments, hlabels.imp fun _ _ ha => ha.mono hle, fun d c hd hc => ?_⟩
  obtain ⟨i, hi, hsame, rfl⟩ := hfacts d c hd hc
  exact ⟨i, hi.mono hle, hsame, rfl⟩

/-! ## Keys -/

/-- No name that is part of a key of a class has the sign that stands before an argument. -/
structure UnseparatedNames (p : Program) : Prop extends PlainClassNames p where
  fileName : ∀ entry ∈ p.files, ';' ∉ entry.name.toList
  annotation : ∀ entry ∈ p.files, ∀ name, p.annotatedName? entry = some name → ';' ∉ name.toList

theorem separator_mem_instanceText (id : DeclId) {labels : List Label} (h : labels ≠ []) :
    ';' ∈ (p.instanceText id labels).toList := by
  cases labels with
  | nil => exact absurd rfl h
  | cons l labels =>
    change ';' ∈ (IrFacts.instanceText (p.nameInKeys id) (l :: labels)).toList
    simp [toList_instanceText]

theorem getLast?_instanceText (id : DeclId) {labels : List Label} (h : labels ≠ []) :
    (p.instanceText id labels).toList.getLast? = some '\x7d' := by
  obtain ⟨before, last, rfl⟩ := List.eq_nil_or_concat labels |>.resolve_left h
  rw [instanceText, List.concat_eq_append, List.foldl_concat, Label.braced, ← String.append_assoc,
    ← String.append_assoc, String.toList_append]
  exact List.getLast?_concat

theorem InstanceKey.not_plain {text : String} (h : ';' ∉ text.toList) :
    ¬p.InstanceKey ("class;" ++ text) := by
  rintro ⟨id, labels, hne, hkey⟩
  have htext := congrArg String.toList hkey
  rw [String.toList_append, String.toList_append, List.append_cancel_left_eq] at htext
  exact h (htext ▸ separator_mem_instanceText id hne)

theorem neverCapital_separator : Text.NeverCapital ';' :=
  ⟨by decide +kernel, by decide +kernel, by decide⟩

theorem separator_notMem_defaultFileClassName {name : String} (h : ';' ∉ name.toList) :
    ';' ∉ (defaultFileClassName name).toList := by
  unfold defaultFileClassName
  dsimp only
  have hstem : ';' ∉ (if ".kt".toList.isSuffixOf name.toList
      then name.toList.take (name.toList.length - ".kt".toList.length) else name.toList) := by
    split
    · exact fun hc => h (List.mem_of_mem_take hc)
    · exact h
  split
  · decide
  · next first rest he =>
    rw [he, List.mem_cons, not_or] at hstem
    have hfirst := neverCapital_separator.notMem (Ne.symm hstem.1)
    simp [hfirst, hstem.2]

/-- The class of a file has no such sign in its name either. -/
theorem UnseparatedNames.fileClass (hp : p.UnseparatedNames) {file : FileId} {entry : FileEntry}
    (h : p.file? file = some entry) :
    ';' ∉ (qualify entry.package (p.fileClassName entry)).toList := by
  have hentry := Array.mem_of_getElem? h
  have happend {a b : String} (ha : ';' ∉ a.toList) (hb : ';' ∉ b.toList) :
      ';' ∉ (a ++ b).toList := by
    simp [ha, hb]
  refine qualify_of (P := fun text => ';' ∉ text.toList) happend (by decide)
    (hp.file entry hentry) ?_
  unfold fileClassName
  cases hname : p.annotatedName? entry with
  | some name => exact hp.annotation entry hentry name hname
  | none =>
    rw [Option.getD_none]
    exact separator_notMem_defaultFileClassName (hp.fileName entry hentry)

end Program

/-! ## The account -/

namespace Event

variable {p : Program} {s : Session} {except : String → Prop}

/-- Among the keys that are not exempt, whatever is told of the label of one is told
when the key gets it. No label is told of before it is handed out. -/
structure Tale (p : Program) (except : String → Prop) (s : Session) (es : List Event) : Prop where
  told : ∀ key n, p.InstanceKey key → ¬except key →
    (run es s).table.find? key = some (.number n) →
    (s.table.find? key = some (.number n) ∧ Trap.factsOf (.number n) (linesOf es s) = []) ∨
    (s.table.find? key = none ∧ ∃ id labels, key = "class;" ++ p.instanceText id labels ∧
      p.TellsOf (run es s).table id labels (.number n)
        (Trap.factsOf (.number n) (linesOf es s)))
  fresh : ∀ n, (run es s).table.next ≤ n → Trap.factsOf (.number n) (linesOf es s) = []

theorem run_table_le (es : List Event) (s : Session) : s.table.Le (run es s).table :=
  fun _ _ h => run_find? es h

theorem factsOf_linesOf_append (l : Label) (es fs : List Event) (s : Session) :
    Trap.factsOf l (linesOf (es ++ fs) s) =
      Trap.factsOf l (linesOf es s) ++ Trap.factsOf l (linesOf fs (run es s)) := by
  rw [linesOf_append, Trap.factsOf_append]

theorem tale_nil (s : Session) : Tale p except s [] :=
  ⟨fun _ _ _ _ h => .inl ⟨h, rfl⟩, fun _ _ => rfl⟩

theorem Tale.append {es fs : List Event} (h : Tale p except s es)
    (k : Tale p except (run es s) fs) : Tale p except s (es ++ fs) := by
  refine ⟨fun key n hkey hexcept hbound => ?_, fun n hn => ?_⟩
  · rw [run_append] at hbound ⊢
    rw [factsOf_linesOf_append]
    rcases k.told key n hkey hexcept hbound with ⟨hmiddle, hnone⟩ | ⟨hnew, id, labels, rfl, htold⟩
    · rw [hnone, List.append_nil]
      rcases h.told key n hkey hexcept hmiddle with hold | ⟨hnew, id, labels, rfl, htold⟩
      · exact .inl hold
      · exact .inr ⟨hnew, id, labels, rfl, htold.mono (run_table_le fs _)⟩
    · obtain ⟨m, hm, hnext⟩ := run_find?_new hbound hnew
      cases hm
      rw [h.fresh n hnext, List.nil_append]
      refine .inr ⟨?_, id, labels, rfl, htold⟩
      cases hfirst : s.table.find? ("class;" ++ p.instanceText id labels) with
      | none => rfl
      | some m => cases hnew.symm.trans (run_find? es hfirst)
  · rw [run_append] at hn
    rw [factsOf_linesOf_append, k.fresh n hn,
      h.fresh n (Nat.le_trans (run_table_next fs _) hn), List.append_nil]

theorem Tale.imp {exempt : String → Prop} {es : List Event} (h : Tale p except s es)
    (hi : ∀ key, except key → exempt key) : Tale p exempt s es :=
  ⟨fun key n hkey hexempt => h.told key n hkey fun he => hexempt (hi key he), h.fresh⟩

theorem tale_silent {e : Event} (hfind : ∀ key, p.InstanceKey key →
      (e.step s).table.find? key = s.table.find? key)
    (hlines : ∀ l, Trap.factsOf l (e.lines s) = []) : Tale p except s [e] := by
  refine ⟨fun key n hkey _ hbound => .inl ⟨?_, ?_⟩, fun n _ => ?_⟩
  · rw [← hfind key hkey]
    exact hbound
  · simp [linesOf, hlines]
  · simp [linesOf, hlines]

/-- A fact that tells of no label of a key that is not exempt. -/
theorem tale_fact {f : Trap.Fact} (h : ∀ n, f.tellsOf (.number n) = true →
      n < s.table.next ∧ ∀ key, p.InstanceKey key → ¬except key →
        s.table.find? key ≠ some (.number n)) : Tale p except s [.fact f] := by
  have htable : (run [.fact f] s).table = s.table := step_table (.fact f) s
  have hsilent (n : Nat) (hn : ¬f.tellsOf (.number n) = true) :
      Trap.factsOf (.number n) (linesOf [.fact f] s) = [] := by
    simp [linesOf, lines, Trap.factsOf_fact, hn]
  refine ⟨fun key n hkey hexcept hbound => ?_, fun n hn => ?_⟩
  · rw [htable] at hbound
    exact .inl ⟨hbound, hsilent n fun htells => (h n htells).2 key hkey hexcept hbound⟩
  · rw [htable] at hn
    exact hsilent n fun htells => absurd (h n htells).1 (Nat.not_lt_of_le hn)

theorem Tale.lookup {key : String} {es : List Event} {id : DeclId} {labels : List Label}
    (hkey : key = "class;" ++ p.instanceText id labels) (hnew : s.table.find? key = none)
    (h : Tale p (· = key) ((Event.lookup key none).step s) es)
    (htold : p.TellsOf (run (.lookup key none :: es) s).table id labels (.number s.table.next)
      (Trap.factsOf (.number s.table.next) (linesOf es ((Event.lookup key none).step s)))) :
    Tale p (fun _ => False) s (.lookup key none :: es) := by
  have hfind (other : String) : ((Event.lookup key none).step s).table.find? other =
      if other = key then some (.number s.table.next) else s.table.find? other := by
    rw [step_table]
    exact LabelTable.find?_lookup_of_none hnew other
  have hfacts (l : Label) : Trap.factsOf l (linesOf (.lookup key none :: es) s) =
      Trap.factsOf l (linesOf es ((Event.lookup key none).step s)) := by
    simp only [linesOf, lines, hnew]
    rw [Trap.factsOf_append]
    rfl
  refine ⟨fun other n hother _ hbound => ?_, fun n hn => ?_⟩
  · rw [hfacts]
    by_cases hsame : other = key
    · obtain rfl := hsame
      obtain ⟨⟩ : Label.number s.table.next = .number n :=
        Option.some.inj ((run_find? es (by rw [hfind, if_pos rfl])).symm.trans hbound)
      exact .inr ⟨hnew, id, labels, hkey, htold⟩
    · rcases h.told other n hother hsame hbound with ⟨hold, hnone⟩ | ⟨hnone, hothers⟩
      · rw [hfind, if_neg hsame] at hold
        exact .inl ⟨hold, hnone⟩
      · rw [hfind, if_neg hsame] at hnone
        exact .inr ⟨hnone, hothers⟩
  · rw [hfacts]
    exact h.fresh n hn

end Event

def Account.instances {p : Program} (hp : p.UnseparatedNames) : Account p where
  kept := p.InstanceKey
  hidden := p.InstanceKey
  grave _ := False
  Holds s es _ := Event.Tale p (fun _ => False) s es
  hidden_kept _ h := h
  kept_start := by
    rintro _ ⟨id, labels, -, rfl⟩
    rw [String.toList_append]
    exact .inl (List.prefix_append _ _)
  kept_end := by
    rintro _ ⟨id, labels, hne, rfl⟩
    have htext := Program.getLast?_instanceText (p := p) id hne
    rw [String.toList_append, List.getLast?_append, htext]
    rfl
  kept_class id := Program.InstanceKey.not_plain (hp.nameInKeys id)
  kept_file _ _ h := Program.InstanceKey.not_plain (hp.fileClass h)
  grave_missing := missing_of_none
  nil := Event.tale_nil
  append := Event.Tale.append
  fact {s f} hf hopen := by
    refine Event.tale_fact fun n htells => ?_
    obtain ⟨hsubject, args, hargs⟩ :=
      Trap.Fact.subject_of_tellsOf htells fun hr => hf (by simp_all [Trap.countedRelations])
    obtain ⟨hlt, hfree⟩ := hopen hsubject _ _ hargs n rfl
    exact ⟨hlt, fun key hkey _ => hfree key hkey⟩
  lookup {s key} hkey := by
    refine Event.tale_silent (fun other hother => ?_) fun l => ?_
    · rw [Event.step_table]
      exact LabelTable.find?_lookup_of_ne _ fun he => hkey (he ▸ hother)
    · simp only [Event.lines]
      split <;> rfl
  report {s problem place} _ := by
    refine Event.tale_silent (fun key _ => by rw [Event.step_table]; rfl) fun l => ?_
    simp only [Event.lines, Event.diagnostic]
    split <;> rfl
  other {s e} hfact hlookup hreport := by
    refine Event.tale_silent (fun key _ => ?_) fun l => ?_
    · rw [Event.step_table]
      cases e with
      | lookup key asker => exact absurd rfl (hlookup key asker)
      | _ => rfl
    · cases e with
      | fact f => exact absurd rfl (hfact f)
      | lookup key asker => exact absurd rfl (hlookup key asker)
      | report problem place => exact absurd rfl (hreport problem place)
      | _ => rfl
  row {s f} hf := by
    refine Event.tale_fact fun n htells => ?_
    have hr : ∀ r ∈ Trap.rowRelations, r ∉ ["typeArgs", "isParameterized", "erasure"] ∧
        r ∉ Trap.subjectRelations := by
      decide
    exact absurd (Trap.Fact.subject_of_tellsOf htells (hr _ hf).1).1 (hr _ hf).2
  reach s _ := Event.tale_nil s
  mention s _ _ := Event.tale_nil s
  borrow s _ := Event.tale_nil s

end IrFacts
