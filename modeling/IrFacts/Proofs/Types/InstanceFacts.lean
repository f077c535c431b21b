import IrFacts.Proofs.Labels.IntroducedOnce
import IrFacts.Proofs.Labels.NestedClasses
import IrFacts.Proofs.Run.AccountedCode
import IrFacts.Proofs.Types.Instances

/-!
# The facts of a class with arguments

The definition of a label runs in the file that declares the class, and may come
back to the same class with the same or with other arguments. Between the lookup and
the end of the definition the facts of the label are gone through one by one; what
happens in between tells of other labels only, or of labels that are new.
-/

set_option autoImplicit false

namespace IrFacts

open Extract Event

/-- In the session the label of the key is being defined. -/
structure Session.Defines (p : Program) (s : Session) (key : String) (n : Nat) : Prop where
  tidy : s.Tidy p.InstanceKey
  instanceKey : p.InstanceKey key
  bound : s.table.find? key = some (.number n)

/-- Events lead from one session to the other that tell these facts of the label that is
being defined. -/
def Session.Tells (p : Program) (key : String) (n : Nat) (s : Session) (facts : List Trap.Fact)
    (t : Session) : Prop :=
  ∃ es, run es s = t ∧ Tale p (· = key) s es ∧ Trap.factsOf (.number n) (linesOf es s) = facts

/-- Between the sessions these facts are told, in one file and one function. -/
structure Story (p : Program) (key : String) (n : Nat) (s : Session) (facts : List Trap.Fact)
    (t : Session) : Prop where
  tells : Session.Tells p key n s facts t
  tidy : t.Tidy p.InstanceKey
  target : t.file.target = s.file.target
  function : t.currentFunction = s.currentFunction

namespace Story

variable {p : Program} {hp : p.UnseparatedNames} {key : String} {n : Nat} {s t u v : Session}
  {facts more : List Trap.Fact} {π : Projection} {α : Type}

theorem tells_nil (s : Session) : Session.Tells p key n s [] s := ⟨[], rfl, tale_nil s, rfl⟩

theorem tells_trans (h : Session.Tells p key n s facts t) (k : Session.Tells p key n t more u) :
    Session.Tells p key n s (facts ++ more) u := by
  obtain ⟨es, rfl, htale, rfl⟩ := h
  obtain ⟨fs, rfl, ktale, rfl⟩ := k
  exact ⟨es ++ fs, run_append es fs s, htale.append ktale, factsOf_linesOf_append _ es fs s⟩

theorem le_of_tells (h : Session.Tells p key n s facts t) : s.table.Le t.table := by
  obtain ⟨es, rfl, -⟩ := h
  exact run_table_le es s

theorem open_of_tells (h : Session.Tells p key n s facts t) {l : Label}
    (hl : s.Open p.InstanceKey l) : t.Open p.InstanceKey l := by
  obtain ⟨es, rfl, -⟩ := h
  exact hl.run es

theorem tells_of_passes (hs : s.Defines p key n) (h : (Account.instances hp).Passes s [] t) :
    Session.Tells p key n s [] t := by
  obtain ⟨⟨es, ms, rfl, -, htale⟩, -⟩ := h
  refine ⟨es, rfl, Tale.imp htale fun _ => nofun, ?_⟩
  rcases htale.told key n hs.instanceKey nofun (run_find? es hs.bound) with ⟨-, hnone⟩ | ⟨hnew, -⟩
  · exact hnone
  · cases hnew.symm.trans hs.bound

theorem trans (h : Story p key n s facts t) (k : Story p key n t more u) :
    Story p key n s (facts ++ more) u :=
  ⟨tells_trans h.tells k.tells, k.tidy, k.target.trans h.target, k.function.trans h.function⟩

theorem le (h : Story p key n s facts t) : s.table.Le t.table := le_of_tells h.tells

theorem defines (h : Story p key n s facts t) (hs : s.Defines p key n) : t.Defines p key n :=
  ⟨h.tidy, hs.instanceKey, h.le _ _ hs.bound⟩

variable (hp) in
theorem of_quiet {m : Extract α} {Q : α → Session → Prop} {r : α} (hs : s.Defines p key n)
    (hm : (Account.instances hp).Quiet s m Q) (hgrows : Grows p m) (h : Ends p s m r t) :
    Story p key n s [] t := by
  have hpasses := (hm hs.tidy r t h).1
  exact ⟨tells_of_passes hs hpasses, hpasses.tidy, (hgrows s r t h).target,
    hpasses.function⟩

theorem of_write {f : Trap.Fact} {r : Unit} (hs : s.Defines p key n)
    (hf : ∀ m, f.tellsOf (.number m) = decide (m = n)) (h : Ends p s (write f) r t) :
    Story p key n s [f] t := by
  obtain rfl := ends_write.mp h
  refine ⟨⟨[.fact f], rfl, tale_fact fun m hm => ?_, ?_⟩, hs.tidy.step nofun nofun, rfl,
    rfl⟩
  · obtain rfl : m = n := by simpa [hf] using hm
    obtain ⟨i, hi, -, hlt⟩ := hs.tidy.faithful.bound key _ hs.bound
    obtain rfl := Label.number.inj hi
    refine ⟨hlt, fun other hother hne hbound => hne ?_⟩
    exact hs.tidy.faithful.distinct other key _ hbound hs.bound
  · simp [linesOf, lines, Trap.factsOf_fact, hf]

/-! ## The parts of the definition -/

theorem tellsOf_label {r : String} {m n : Nat} {args : List Trap.Arg}
    (hr : r ∈ Trap.instanceRelations) :
    (Trap.Fact.mk r (.label (.number n) :: args)).tellsOf (.number m) = decide (m = n) := by
  have hne : r ≠ "typeArgs" := by
    rintro rfl
    exact absurd hr (by decide)
  simp [Trap.Fact.tellsOf, hr, hne, Trap.Arg.isLabel, eq_comm]

theorem tellsOf_typeArgs {a : Label} {i m n : Nat} :
    (Trap.Fact.typeArgs a i (.number n)).tellsOf (.number m) = decide (m = n) := by
  have hr : "typeArgs" ∉ Trap.instanceRelations := by decide
  simp [Trap.Fact.typeArgs, Trap.Fact.tellsOf, hr, Trap.Arg.isLabel, eq_comm]

theorem classOrInterface (hp : p.UnseparatedNames) (hs : s.Defines p key n) {kind : ClassKind}
    {name : String} {package source : Label} {r : Unit}
    (h : Ends p s (Projection.writeClassOrInterface kind (.number n) name package source) r t) :
    Story p key n s [if kind = .interface then .interfaces (.number n) name package source
      else .classes (.number n) name package source] t := by
  have enum {u : Session} (hu : u.Defines p key n)
      (h : Ends p u (if kind = .enumClass then write (.isEnumType (.number n)) else pure ()) r t) :
      Story p key n u [] t := by
    refine of_quiet hp hu (Account.quiet_when fun _ => Account.quiet_write (by decide)) ?_ h
    split
    · exact grows_write _
    · exact grows_pure ()
  unfold Projection.writeClassOrInterface at h
  dsimp only at h
  by_cases hkind : kind = .interface
  · rw [if_pos hkind] at h
    obtain ⟨_, u, hu, h⟩ := ends_bind.mp h
    have hfirst := of_write hs (fun m => tellsOf_label (by decide)) hu
    rw [if_pos hkind]
    exact hfirst.trans (enum (hfirst.defines hs) h)
  · rw [if_neg hkind] at h
    obtain ⟨_, u, hu, h⟩ := ends_bind.mp h
    have hfirst := of_write hs (fun m => tellsOf_label (by decide)) hu
    rw [if_neg hkind]
    exact hfirst.trans (enum (hfirst.defines hs) h)

/-- By induction on the arguments, each of which has the label that stands in the key. -/
theorem typeArguments {fuel : Nat} (hπ : (Account.instances hp).Keeps (.whole p) (projection fuel))
    (hs : s.Defines p key n) {arguments : List TypeArgument} {labels : List Label} {k : Nat}
    {r : PUnit} (hlabels : List.Forall₂ (Answered p s.table) arguments labels)
    (h : Ends p s ((arguments.zipIdx k).forM fun (a, index) => do
      write (.typeArgs (← (projection fuel).argument a) index (.number n))) r t) :
    Story p key n s ((labels.zipIdx k).map fun e => .typeArgs e.1 e.2 (.number n)) t := by
  induction arguments generalizing s k labels with
  | nil =>
    cases hlabels
    obtain ⟨-, rfl⟩ := ends_pure.mp h
    exact ⟨tells_nil _, hs.tidy, rfl, rfl⟩
  | cons a arguments ih =>
    obtain ⟨l, labels, ha, hrest, rfl⟩ := List.forall₂_cons_left_iff.mp hlabels
    obtain ⟨_, u, hfirst, h⟩ := ends_bind.mp h
    obtain ⟨m, v, hm, hwrite⟩ := ends_bind.mp hfirst
    obtain rfl := ha.again (.refl _) hm
    have h₁ := of_quiet hp hs (Account.quiet_argument hπ fun _ _ _ => trivial)
      (asks_argument (stable_projection p fuel) a).grows hm
    have h₂ := of_write (h₁.defines hs) (fun _ => tellsOf_typeArgs) hwrite
    have h₁₂ := h₁.trans h₂
    have h₃ := ih (h₁₂.defines hs) (hrest.imp fun _ _ ha => ha.mono h₁₂.le) h
    exact h₁₂.trans h₃

/-- By induction on the supertypes; those that are not over a class are only complained of. -/
theorem supertypes {fuel : Nat} (hπ : (Account.instances hp).Keeps (.whole p) (projection fuel))
    (hs : s.Defines p key n) {c : ClassDecl} {types : List IrType} {r : PUnit}
    (h : Ends p s (types.forM ((projection fuel).supertype c (.number n))) r t) :
    ∃ supers, Story p key n s (supers.map fun l => .extendsReftype (.number n) l) t ∧
      List.Forall₂ (p.SuperLabel t.table) (types.filterMap IrType.classUse?) supers := by
  induction types generalizing s with
  | nil =>
    obtain ⟨-, rfl⟩ := ends_pure.mp h
    exact ⟨[], ⟨tells_nil _, hs.tidy, rfl, rfl⟩, .nil⟩
  | cons type types ih =>
    obtain ⟨_, u, hfirst, h⟩ := ends_bind.mp h
    unfold Projection.supertype at hfirst
    split at hfirst
    · next id x hid hx =>
      obtain ⟨m, v, hm, hwrite⟩ := ends_bind.mp hfirst
      have h₁ := of_quiet hp hs (hπ.classInstance trivial s)
        ((remembers_projection p fuel).asksInstance id x.arguments).grows hm
      have h₂ := of_write (h₁.defines hs) (fun _ => tellsOf_label (by decide)) hwrite
      have h₁₂ := h₁.trans h₂
      obtain ⟨supers, h₃, hsupers⟩ := ih (h₁₂.defines hs) h
      obtain ⟨labels, hlength, hbound⟩ := (remembers_projection p fuel).bindsInstance hm
      refine ⟨m.label :: supers, h₁₂.trans h₃, ?_⟩
      have huse : IrType.classUse? type = some (id, x.arguments) := by
        simp [IrType.classUse?, hid, hx]
      rw [List.filterMap_cons_some huse]
      exact .cons ⟨labels, hlength, (h₂.trans h₃).le _ _ hbound⟩ hsupers
    · next hother =>
      have hfirst := ends_read_bind.mp hfirst
      have h₁ := of_quiet hp hs (Account.quiet_complain (by simp))
        (grows_complain _) hfirst
      obtain ⟨supers, h₂, hsupers⟩ := ih (h₁.defines hs) h
      refine ⟨supers, h₁.trans h₂, ?_⟩
      have huse : IrType.classUse? type = none := by
        unfold IrType.classUse?
        split
        · next id x hid hx => exact (hother id x hid hx).elim
        · rfl
      rwa [List.filterMap_cons_none huse]

/-! ## Places -/

theorem placeIn_location {span : Span} {place : Label} (h : Ends p s (location span) place t)
    (hfile : s.table.find? (s.file.target.path ++ ";sourcefile") = some s.file.target.label) :
    t.table.PlaceIn s.file.target.path s.file.target.lines span place := by
  have region {u : Session} {file : Label} {r : Trap.Region}
      (h : Ends p u (onFile (·.locationIn file r)) place t) :
      u.table.Le t.table ∧ t.table.find? (r.key file) = some place := by
    rw [locationIn_eq] at h
    obtain ⟨hle, hkey⟩ := bound_of_labelWith (fun _ => grows_write _) h
    exact ⟨hle.table, hkey⟩
  rw [location_eq] at h
  have h := ends_get_bind.mp h
  unfold placeIn at h
  split at h
  · next hlines =>
    obtain ⟨hle, hkey⟩ := region h
    exact ⟨_, _, _, by simp only [Trap.placed?, hlines], hle _ _ hfile, hkey⟩
  · next lines hlines =>
    split at h
    · next hspan =>
      rw [unknownLocation_eq, unknownFile_eq] at h
      obtain ⟨file, u, hunknown, h⟩ := ends_bind.mp h
      obtain ⟨hle, hkey⟩ := region h
      have hunknown := (bound_of_labelWith (fun _ => grows_write _) hunknown).2
      refine ⟨"", _, file, by simp only [Trap.placed?, hlines, if_pos hspan], ?_, hkey⟩
      exact hle _ _ hunknown
    · next hspan =>
      split at h
      · next r hr =>
        obtain ⟨hle, hkey⟩ := region h
        refine ⟨_, r, _, ?_, hle _ _ hfile, hkey⟩
        simp only [Trap.placed?, hlines, if_neg hspan, hr, Option.map_some]
      · exact absurd h ends_throw

/-! ## The whole definition -/

/-- Step by step, for the label of a class whose arguments have got their labels. The
file at hand is the one that declares the class. -/
theorem definition {fuel : Nat} (hπ : (Account.instances hp).Keeps (.whole p) (projection fuel))
    (hs : s.Defines p key n) {id : DeclId} {arguments : List TypeArgument} {labels : List Label}
    (hlabels : List.Forall₂ (Answered p s.table) arguments labels)
    (hpath : s.file.target.path = p.homePath id) (hlines : s.file.target.lines = p.homeLines id)
    (hfile : s.table.find? (s.file.target.path ++ ";sourcefile") = some s.file.target.label)
    {r : Unit} (h : Ends p s ((projection fuel).extractInstance id arguments (.number n)) r t) :
    ∃ facts, Story p key n s facts t ∧ p.TellsOf t.table id labels (.number n) facts := by
  have hremembers := remembers_projection p fuel
  have h := ends_read_bind.mp h
  split at h
  · next d c hd hc =>
    obtain ⟨package, s₁, hpackage, h⟩ := ends_bind.mp h
    have h₁ := of_quiet hp hs (Account.quiet_packageLabel _)
      (asks_packageLabel _).grows hpackage
    have hs₁ := h₁.defines hs
    obtain ⟨source, s₂, hsource, h⟩ := ends_bind.mp h
    have h₂ := of_quiet hp hs₁ (Account.quiet_classSource id)
      (asks_classSource hremembers.toStable id).grows hsource
    have hs₂ := h₂.defines hs₁
    obtain ⟨_, s₃, hkind, h⟩ := ends_bind.mp h
    have h₃ := classOrInterface hp hs₂ hkind
    have hs₃ := h₃.defines hs₂
    obtain ⟨_, s₄, htypeArgs, h⟩ := ends_bind.mp h
    have hlabels₃ := hlabels.imp fun _ _ ha => ha.mono (h₁.trans (h₂.trans h₃)).le
    have h₄ := typeArguments hπ hs₃ hlabels₃ htypeArgs
    have hs₄ := h₄.defines hs₃
    obtain ⟨_, s₅, hparameterized, h⟩ := ends_bind.mp h
    have h₅ := of_write hs₄ (fun _ => tellsOf_label (by decide)) hparameterized
    have hs₅ := h₅.defines hs₄
    obtain ⟨_, s₆, herasure, h⟩ := ends_bind.mp h
    have h₆ := of_write hs₅ (fun _ => tellsOf_label (by decide)) herasure
    have hs₆ := h₆.defines hs₅
    obtain ⟨_, s₇, hmodifiers, h⟩ := ends_bind.mp h
    have h₇ := of_quiet hp hs₆ (Account.quiet_classModifiers id _)
      (grows_of_does fun u => Scope.does_classModifiers (Scope.widest_knows u _)) hmodifiers
    have hs₇ := h₇.defines hs₆
    obtain ⟨_, s₈, hsupertypes, h⟩ := ends_bind.mp h
    have hsupertypes := ends_read_bind.mp hsupertypes
    rw [hc] at hsupertypes
    obtain ⟨supers, h₈, hsupers⟩ := supertypes hπ hs₇ hsupertypes
    have hs₈ := h₈.defines hs₇
    obtain ⟨place, s₉, hplace, h⟩ := ends_bind.mp h
    have h₉ := of_quiet hp hs₈ (Account.quiet_location d.span)
      (grows_location d.span) hplace
    have h₁₀ := of_write (h₉.defines hs₈) (fun _ => tellsOf_label (by decide)) h
    have middle := h₃.trans (h₄.trans (h₅.trans (h₆.trans (h₇.trans h₈))))
    have before := h₁.trans (h₂.trans middle)
    have after := h₉.trans h₁₀
    have hle₂ := middle.le.trans after.le
    have hplaced : s₉.table.PlaceIn (p.homePath id) (p.homeLines id) d.span place := by
      rw [← hpath, ← hlines, ← before.target]
      refine placeIn_location hplace ?_
      rw [before.target]
      exact before.le _ _ hfile
    let i : InstanceFacts :=
      { kind := c.kind, name := p.classShortName id arguments, package, source
        arguments := labels, supers, place }
    have hall := before.trans after
    refine ⟨i.facts (.number n), ?_, arguments, hlabels.imp fun _ _ ha => ha.mono hall.le, ?_⟩
    · simpa [InstanceFacts.facts, Trap.Fact.isParameterized, Trap.Fact.erasure,
        Trap.Fact.hasLocation] using hall
    · intro d' c' hd' hc'
      cases hd.symm.trans hd'
      cases hc.symm.trans hc'
      refine ⟨i, ⟨rfl, rfl, ?_, ?_, ?_, ?_, hplaced.mono h₁₀.le⟩, rfl, rfl⟩
      · exact h₂.le.trans hle₂ _ _ (bound_of_labelWith (fun _ => grows_write _) hpackage).2
      · exact hle₂ _ _ (bound_of_labelFor (ends_classSource.mp hsource)).2
      · exact hlabels.imp fun _ _ ha => ha.mono hall.le
      · exact hsupers.imp fun _ _ hl => hl.mono after.le
  · next hother =>
    obtain ⟨-, rfl⟩ := ends_pure.mp h
    refine ⟨[], ⟨tells_nil _, hs.tidy, rfl, rfl⟩, arguments, hlabels, ?_⟩
    exact fun d c hd hc => (hother d c hd hc).elim

end Story

/-! ## The file of a class -/

namespace Extract

variable {p : Program} {s t : Session} {α : Type}

theorem bound_of_fileLabel {text : String} {populate : Bool} {l : Label}
    (h : Ends p s (onWriter (·.fileLabel text populate)) l t) :
    t.table.find? (text ++ ";sourcefile") = some l := by
  rw [fileLabel_eq] at h
  refine (bound_of_labelWith (fun l => ?_) h).2
  split
  · exact grows_bind (grows_write _) fun _ => grows_of_does fun u =>
      Scope.does_enterFolders (Scope.widest_knows u l) fun _ _ => Scope.widest_letters _
  · exact grows_pure ()

theorem target_of_retarget {path : String} {lines : Option LineTable} {populate : Bool}
    {saved : Trap.Target} (h : Ends p s (onFile (·.retarget path lines populate)) saved t) :
    t.file.target.path = path ∧ t.file.target.lines = lines ∧
      t.table.find? (t.file.target.path ++ ";sourcefile") = some t.file.target.label := by
  obtain ⟨-, label, u, hlabel, rfl⟩ := ends_retarget.mp h
  have hkey := bound_of_fileLabel hlabel
  exact ⟨rfl, rfl, hkey⟩

theorem ends_inFileOf {id : DeclId} {populate : Bool} {action : Extract α} {r : α}
    (h : Ends p s (inFileOf id populate action) r t) : ∃ known saved u v,
      Ends p s (onFile (·.retarget (p.homePath id) (p.homeLines id) known)) saved u ∧
      Ends p u action r v ∧ Ends p v (onFile fun file => ((), file.restore saved)) () t := by
  have inside (known : Bool) (h : Ends p s (do
        let saved ← onFile (·.retarget (p.homePath id) (p.homeLines id) known)
        let result ← action
        onFile fun file => ((), file.restore saved)
        return result) r t) : ∃ known saved u v,
      Ends p s (onFile (·.retarget (p.homePath id) (p.homeLines id) known)) saved u ∧
      Ends p u action r v ∧ Ends p v (onFile fun file => ((), file.restore saved)) () t := by
    obtain ⟨saved, u, hsaved, h⟩ := ends_bind.mp h
    obtain ⟨result, v, hresult, h⟩ := ends_bind.mp h
    obtain ⟨_, w, hrestore, h⟩ := ends_bind.mp h
    obtain ⟨rfl, rfl⟩ := ends_pure.mp h
    exact ⟨known, saved, u, v, hsaved, hresult, hrestore⟩
  have h := ends_read_bind.mp h
  cases hentry : p.homeEntry? id with
  | some entry =>
    have hsource : (if p.isExternal id = true then none else (p.fileOf? id).bind p.file?) =
        some entry := hentry
    simp only [hsource] at h
    refine inside true ?_
    simpa only [Program.homePath, Program.homeLines, hentry, Option.map_some, Option.getD_some]
      using h
  | none =>
    have hsource : (if p.isExternal id = true then none else (p.fileOf? id).bind p.file?) =
        none := hentry
    simp only [hsource] at h
    refine inside populate ?_
    simpa only [Program.homePath, Program.homeLines, hentry, Option.map_none, Option.getD_none]
      using h

end Extract

namespace Account

variable {p : Program} {hp : p.UnseparatedNames} {s t : Session} {fuel : Nat}

/-- A label that is made for a class with arguments is defined at once, and what is told of
it is told there. -/
theorem passes_definition (hπ : (instances hp).Keeps (.whole p) (projection fuel)) {id : DeclId}
    {arguments : List TypeArgument} {labels : List Label} (hs : s.Tidy p.InstanceKey)
    (hne : labels ≠ []) (hlabels : List.Forall₂ (Answered p s.table) arguments labels)
    (hnew : s.table.find? ("class;" ++ p.instanceText (p.onHost id) labels) = none)
    (h : Ends p ((Event.lookup ("class;" ++ p.instanceText (p.onHost id) labels) none).step s) (do
      inFileOf (p.onHost id) false
        ((projection fuel).extractInstance (p.onHost id) arguments (.number s.table.next))
      Scope.introducing p id) () t) : (instances hp).Passes s [] t := by
  generalize hkey : "class;" ++ p.instanceText (p.onHost id) labels = key at hnew h
  obtain ⟨_, v, hinFile, hintroducing⟩ := ends_bind.mp h
  obtain ⟨known, saved, u, w, hretarget, hextract, hrestore⟩ := ends_inFileOf hinFile
  -- Where the label is made.
  have hmade : ((Event.lookup key none).step s).Defines p key s.table.next := by
    refine ⟨hs.step nofun nofun, ⟨p.onHost id, labels, hne, hkey.symm⟩, ?_⟩
    rw [Event.step_table]
    exact (LabelTable.find?_lookup_of_none hnew key).trans (if_pos rfl)
  -- The file that declares the class.
  obtain ⟨hbefore, hsaved⟩ := quiet_retarget (a := instances hp) _ _ _ hmade.tidy saved u hretarget
  have htells := Story.tells_of_passes hmade hbefore
  have hle := Story.le_of_tells htells
  have hdefines : u.Defines p key s.table.next :=
    ⟨hbefore.tidy, hmade.instanceKey, hle _ _ hmade.bound⟩
  obtain ⟨hpath, hlines, hfile⟩ := target_of_retarget hretarget
  have hlabels := hlabels.imp fun _ _ ha =>
    ha.mono ((Event.run_table_le [.lookup key none] s).trans hle)
  obtain ⟨facts, hstory, htold⟩ := Story.definition hπ hdefines hlabels hpath hlines hfile hextract
  -- Back in the file at hand.
  have hback : (instances hp).Told saved.label w := Story.open_of_tells hstory.tells hsaved
  have hrestored := (quiet_restore hback hstory.tidy () v hrestore).1
  have hafter := hrestored.after (quiet_introducing id hrestored.tidy () t hintroducing).1
  have hdone := Story.tells_of_passes (hstory.defines hdefines) hafter
  obtain ⟨es, rfl, htale, hfacts⟩ := Story.tells_trans htells (Story.tells_trans hstory.tells hdone)
  refine ⟨⟨.lookup key none :: es, [], rfl, .nil, ?_⟩, hafter.tidy, ?_⟩
  · refine Event.Tale.lookup hkey.symm hnew htale ?_
    rw [hfacts, List.nil_append, List.append_nil]
    exact htold.mono (Story.le_of_tells hdone)
  · rw [hafter.function, hstory.function, hbefore.function]
    rfl

theorem quiet_instances_class (hπ : (instances hp).Keeps (.whole p) (projection fuel))
    (id : DeclId) (arguments : List TypeArgument) :
    (instances hp).Quiet s ((projection fuel).classInstanceStep id arguments) Any := by
  intro hs c t h
  obtain ⟨text, u, htext, h⟩ := ends_bind.mp (ends_read_bind.mp h)
  have hname := (quiet_instanceName hπ _ (fun _ _ _ => trivial) hs text u htext).1
  obtain ⟨labels, hlabels, rfl⟩ := answered_instanceName htext
  obtain ⟨label, _, hlabel, h⟩ := ends_bind.mp h
  obtain ⟨rfl, rfl⟩ := ends_pure.mp h
  refine ⟨hname.after ?_, trivial⟩
  cases arguments with
  | nil =>
    obtain rfl := List.forall₂_nil_left_iff.mp hlabels
    exact (quiet_labelWith ((instances hp).kept_class _) (fun _ _ _ _ => quiet_introducing id)
      hname.tidy label t hlabel).1
  | cons a arguments =>
    have hne : labels ≠ [] := by
      rintro rfl
      cases hlabels
    rcases (ends_labelWith none).mp hlabel with ⟨-, rfl⟩ | ⟨hnew, rfl, hdefine⟩
    · exact .refl hname.tidy
    · exact passes_definition hπ hname.tidy hne hlabels hnew hdefine

theorem copes_instances (hp : p.UnseparatedNames) : (instances hp).Copes (.whole p) where
  classInstance hπ _ _ _ _ := quiet_instances_class hπ _ _
  array hπ array h harray _ := by
    refine quiet_arrayType hπ (fun _ levels element _ s =>
      quiet_arrayLabel hπ ?_ (fun {s f} hf => ?_) h harray) h
    · rintro ⟨id, labels, -, hkey⟩
      exact absurd (congrArg String.toList hkey) (by simp)
    · have hmembers : ∀ r ∈ ["methods", "fields"], r ∈ Trap.rowRelations := by decide
      exact (instances hp).row (f := f) (hmembers _ hf)
  typeParameter hπ id _ s := quiet_typeParameterUse hπ (fun _ => nofun) id

/-! ## Requests -/

section Requests

variable {a : Account p} {w : Walk} {α : Type}

theorem Walks.forget {m : Extract α} {items : List WalkItem} {Q : α → Session → Prop}
    (h : a.Walks s m items Q) : a.Walks s (do let _ ← m) items Any :=
  bind_quiet h fun _ _ _ _ => quiet_pure trivial

theorem quiet_ask (hw : a.Treads (.whole p) w) (hgrave : ∀ problem, ¬a.grave problem)
    (r : Reference) : a.Quiet s (r.ask w.toProjection) Any := by
  have hπ := hw.toKeeps
  have answer {α : Type} {m : Extract α} {f : α → Answer} {Q : α → Session → Prop}
      (h : a.Quiet s m Q) : a.Quiet s (m >>= fun r => pure (f r)) Any :=
    quiet_bind h fun _ _ _ _ => quiet_pure trivial
  cases r with
  | type t => exact answer (hπ.type trivial true s)
  | referenceType t => exact answer (hπ.type trivial false s)
  | classInstance id arguments => exact answer (hπ.classInstance trivial s)
  | classSource id => exact answer (quiet_classSource id)
  | function id => exact answer (quiet_function hπ id)
  | field id => exact answer (quiet_member hπ (by decide) id)
  | property id => exact answer (quiet_member hπ (by decide) id)
  | enumEntry id => exact answer (quiet_member hπ (by decide) id)
  | typeAlias id => exact answer (quiet_member hπ (by decide) id)
  | typeParameter id => exact answer (quiet_typeParameterUse hπ hgrave id)
  | valueParameter id => exact answer (quiet_valueParameter hπ id)
  | localVariable id => exact answer (quiet_localVariable id)

theorem exists_walks (hw : a.Treads (.whole p) w) (hgrave : ∀ problem, ¬a.grave problem)
    (c : Context) (r : Request) :
    ∃ items, ∀ s, c.Suits s → a.Walks s (r.perform w) items Any := by
  have hπ := hw.toKeeps
  cases r with
  | operation op => exact Reading.exists_says hw.reads (fun r s => quiet_ask hw hgrave r) c op
  | package name => exact ⟨_, fun s _ => (quiet_packageLabel name).forget⟩
  | modifier name =>
    exact ⟨_, fun s _ => (quiet_labelWith (a.not_kept (by decide) name)
      fun _ _ _ _ => quiet_write (by decide)).forget⟩
  | classType id arguments nullable => exact ⟨_, fun s _ => (quiet_classType hπ _ trivial).forget⟩
  | parent owner => exact ⟨_, fun s _ => (hπ.parent owner s).forget⟩
  | value id => exact ⟨_, fun s _ => (quiet_value hπ id).forget⟩
  | place span => exact ⟨_, fun s _ => (quiet_location span).forget⟩
  | wholeFile => exact ⟨_, fun s _ => quiet_wholeFile.forget⟩
  | noPlace => exact ⟨_, fun s _ => quiet_unknownLocation.forget⟩

theorem exists_walks_run (hw : a.Treads (.whole p) w) (hgrave : ∀ problem, ¬a.grave problem)
    (c : Context) (requests : List Request) :
    ∃ items, ∀ s, c.Suits s → a.Walks s (Request.run w requests) items Any := by
  choose items hitems using exists_walks hw hgrave c
  exact ⟨requests.flatMap items, fun s hc => walks_forM fun r _ _ t hst =>
    hitems r t (hst.suits hc)⟩

end Requests

end Account

/-! ## A whole run -/

/-- What the lines of a trap tell of a class whose arguments have these numbers. Its label
is none of the generic class, nor of the class with other arguments. -/
structure Program.InstanceTold (p : Program) (t : LabelTable) (lines : List Trap.Line)
    (id : DeclId) (arguments : List Nat) (l : Label) : Prop where
  told : p.TellsOf t id (arguments.map .number) l (Trap.factsOf l lines)
  ne_source : t.find? ("class;" ++ p.nameInKeys id) ≠ some l
  ne_other : ∀ others ≠ arguments,
    t.find? ("class;" ++ p.instanceText id (others.map .number)) ≠ some l

namespace Request

variable {p : Program}

theorem numbers_of_answered {t : LabelTable} (ht : t.Faithful) {arguments : List TypeArgument}
    {labels : List Label} (h : List.Forall₂ (Answered p t) arguments labels) :
    ∃ numbers : List Nat, labels = numbers.map .number := by
  induction h with
  | nil => exact ⟨[], rfl⟩
  | cons ha _ ih =>
    obtain ⟨numbers, rfl⟩ := ih
    obtain ⟨n, rfl⟩ := ha.gives.number ht
    exact ⟨n :: numbers, rfl⟩

theorem instanceText_numbers_inj (hp : p.PlainClassNames) {id other : DeclId}
    {arguments others : List Nat} (h : p.instanceText id (arguments.map .number) =
      p.instanceText other (others.map .number)) : arguments = others := by
  have numbers (ns : List Nat) : ∀ l ∈ ns.map Label.number, ∃ n, l = .number n := by
    simp
  have hlabels := (instanceText_inj (hp.nameInKeys id) (hp.nameInKeys other) (numbers _)
    (numbers _) h).2
  exact List.map_injective_iff.mpr (fun _ _ he => Label.number.inj he) hlabels

/-- Whatever is asked of a new store, the facts of a class with arguments are those that its
declaration calls for, with the labels that stand in its key: what it is, what its arguments
are, what it extends, and where it is in the file that declares it. -/
theorem run_instancesTold (hp : p.UnseparatedNames) {path : String} {lines : Option LineTable}
    {sink : Trap.Sink} (hsink : sink.NeverRefuses) (hnew : sink.taken = [])
    (typeFuel walkFuel : Nat) (requests : List Request) {s s' : Session}
    (hs : s.file = .ofPath (.ofSink sink) path lines) (hlocals : s.locals = [])
    (h : Ends p s (run (walk (projection typeFuel) walkFuel) requests) () s') {key : String}
    {l : Label} (hkey : p.InstanceKey key) (hl : s'.table.find? key = some l) :
    ∃ id arguments, arguments ≠ [] ∧
      key = "class;" ++ p.instanceText id (arguments.map .number) ∧
      p.InstanceTold s'.table s'.file.writer.sink.lines id arguments l := by
  let a := Account.instances hp
  obtain ⟨start, hwriter, hfunction, hstart⟩ :=
    a.passes_ofPath LabelTable.faithful_empty hs hlocals
  have hfollows : a.Follows (.whole p) (projection typeFuel) :=
    (Account.keeps_projection (Account.copes_instances hp) typeFuel).follows
      fun s _ => Event.tale_nil s
  obtain ⟨items, hitems⟩ := Account.exists_walks_run (Account.treads_walk hfollows walkFuel)
    (fun _ => nofun) ⟨s.currentFunction.isSome, []⟩ requests
  have hend := hstart.trans (hitems s rfl hstart.tidy () s' h).1
  have hfaithful := hend.tidy.faithful
  obtain ⟨⟨es, ms, hrun, -, htale⟩, -⟩ := hend
  have hwrote := run_wrote es start
  rw [hrun] at hwrote
  obtain ⟨hlines, -⟩ := hwrote.lines (hwriter ▸ hsink) (hwriter ▸ rfl) (hwriter ▸ hnew)
  obtain ⟨n, rfl, -⟩ := hfaithful.bound key l hl
  have hempty : start.table.find? key = none := by
    rw [Session.table, hwriter]
    rfl
  rcases htale.told key n hkey id (hrun.symm ▸ hl) with ⟨hold, -⟩ | ⟨-, id, labels, rfl, htold⟩
  · cases hempty.symm.trans hold
  · rw [hrun] at htold
    obtain ⟨arguments, hlabels, hfacts⟩ := htold
    obtain ⟨numbers, rfl⟩ := numbers_of_answered hfaithful hlabels
    refine ⟨id, numbers, ?_, rfl, ?_, fun hsource => ?_, fun others hne hother => ?_⟩
    · rintro rfl
      exact Program.InstanceKey.not_plain (hp.nameInKeys id) hkey
    · rw [hlines]
      exact ⟨arguments, hlabels, hfacts⟩
    · have hsame := hfaithful.distinct _ _ _ hsource hl
      exact Program.InstanceKey.not_plain (hp.nameInKeys id) (hsame ▸ hkey)
    · have hsame := hfaithful.distinct _ _ _ hother hl
      have htext := (start_inj (by decide) (by decide) hsame).2
      exact hne (instanceText_numbers_inj hp.toPlainClassNames htext)

/-- A class in a file of its own that extends another one for its type parameter, asked for
from elsewhere. -/
def crates : Program :=
  let parameter : IrType := .simple { classifier := .ofTypeParameter ⟨2⟩ }
  { files := #[{ path := "a.kt" }, { path := "b.kt", declarations := [⟨0⟩, ⟨1⟩] }]
    declarations :=
      #[{ parent := .file ⟨1⟩, kind := .class { name := "Store", kind := .interface } },
        { parent := .file ⟨1⟩
          span := ⟨0, 9⟩
          kind := .class
            { name := "Crate"
              typeParameters := [⟨2⟩]
              superTypes := [.ofClass ⟨0⟩ [.projection .invariant parameter]] } },
        { parent := .decl ⟨1⟩, kind := .typeParameter { name := "T", index := 0 } }]
    classIndex := [("Store", ⟨0⟩), ("Crate", ⟨1⟩)] }

theorem run_instancesTold_crates : ∃ s',
    let stores : IrType := .ofClass ⟨1⟩ [.projection .invariant (.ofClass ⟨0⟩ [])]
    Ends crates { file := .source (.ofSink .unbounded) "a.kt" .single, counter := {}, queue := {} }
      (run (walk (projection 9) 9) [.operation (.refer (.type stores))]) () s' ∧
    s'.table.find? "class;Crate;\x7b#101\x7d" = some (.number 103) ∧
    ∃ id arguments, arguments ≠ [] ∧ "class;Crate;\x7b#101\x7d" =
        "class;" ++ crates.instanceText id (arguments.map .number) ∧
      crates.InstanceTold s'.table s'.file.writer.sink.lines id arguments (.number 103) := by
  have hnames : crates.UnseparatedNames := by
    have hplain : ∀ entry ∈ crates.files, crates.annotatedName? entry = none := by
      simp [crates, Program.annotatedName?]
    refine ⟨⟨by simp [crates], by simp [crates], by simp [crates]⟩, by decide, ?_⟩
    intro entry hentry name hname
    cases (hplain entry hentry).symm.trans hname
  obtain ⟨_, s', h, hl⟩ := ends_of_map (p := crates)
    (s := { file := .source (.ofSink .unbounded) "a.kt" .single, counter := {}, queue := {} })
    (m := run (walk (projection 9) 9) [.operation (.refer (.type
      (.ofClass ⟨1⟩ [.projection .invariant (.ofClass ⟨0⟩ [])])))])
    (f := fun r => r.2.table.find? "class;Crate;\x7b#101\x7d") (b := some (.number 103))
    (by decide +kernel)
  have hkey : crates.InstanceKey "class;Crate;\x7b#101\x7d" :=
    ⟨⟨1⟩, [.number 101], nofun, by decide⟩
  exact ⟨s', h, hl, run_instancesTold hnames (fun _ _ => rfl) rfl 9 9 _ rfl rfl h hkey hl⟩

end Request

end IrFacts
