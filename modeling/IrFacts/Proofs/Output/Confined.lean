import IrFacts.Proofs.Diagnostics.Unreached
import IrFacts.Proofs.Files.Endings
import IrFacts.Proofs.Output.Bounded

/-!
# What tasks touch and count

Tasks touch the places that they are told of, and the counts of their
diagnostics only grow, whether or not they fail. Traps of classes and lists of
them never lie where the trap of a source file does, nor where one is in the
making, so that all external classes can be drained between the two.
-/

set_option autoImplicit false

namespace IrFacts

namespace Task

variable {α β : Type} {here : Location} {touched : Location → Prop}

structure Conduct.OfCounts (c : Conduct) : Prop where
  leads {g g' : Progress} (counter : g'.counter = g.counter) : c.leads g g'
  mayStop : c.mayStop

/-- An extraction that ends keeps to a conduct. -/
def Conduct.Extracts (c : Conduct) (p : Program) (extraction : Extract Unit) : Prop :=
  ∀ (g : Progress) (s s' : Session), s.counter = g.counter → Extract.Ends p s extraction () s' →
    c.leads g { g with counter := s'.counter, queue := s'.queue }

theorem obeys_extracting {c : Conduct} (hc : c.OfCounts) {p : Program} {extraction : Extract Unit}
    (h : c.Extracts p extraction) (file : Trap.FileWriter) (dependencies : Option (List DeclId)) :
    Obeys c here touched (extracting p file dependencies extraction) := by
  intro g k _
  unfold After
  rw [run_extracting]
  split
  · exact ⟨c.refl _, .refl _ _, fun _ _ => hc.mayStop⟩
  · next s hs => exact ⟨h g _ s rfl hs, .refl _ _, fun _ _ => hc.mayStop⟩

def counting : Conduct where
  leads g g' := g.counter.Precedes g'.counter
  mayStop := True
  same _ hcounter := hcounter ▸ .refl _
  trans := .trans

theorem counting_ofCounts : counting.OfCounts where
  leads {g g'} hcounter := show g.counter.Precedes g'.counter from hcounter ▸ .refl _
  mayStop := trivial

theorem counting_extracts {p : Program} {extraction : Extract Unit}
    (h : Extract.Oblivious p extraction) : counting.Extracts p extraction := by
  intro g s s' hcounter hends
  have hprecedes : s.counter.Precedes s'.counter := h.precedes hends
  rwa [hcounter] at hprecedes

/-- Whatever the outcome, the task touches these locations only, and its counts go on from
those before. -/
abbrev Confined (here : Location) (touched : Location → Prop) (m : Task OnDisk α) : Prop :=
  Obeys counting here touched m

theorem Confined.yields {m : Task OnDisk α} (h : Confined here touched m) {g : Progress} {k : Disk}
    (hk : k.here = here) :
    Yields m g k fun _ g' k' => g.counter.Precedes g'.counter ∧ Disk.Frame touched k k' :=
  Obeys.yields h hk

end Task

/-! ## Classes -/

namespace Destination

open IrFacts.Task

variable {here : Location} {touched : Location → Prop} {d : Destination} {p : Program}

def FilesIn (d : Destination) (p : Program) (here : Location) (touched : Location → Prop) : Prop :=
  ∀ id t, ClassTrap.ofClass d p id = .ok t → t.FilesIn here touched

/-- Every class that is extracted to an end keeps to a conduct. -/
def Extracts (d : Destination) (p : Program) (c : Conduct) : Prop :=
  ∀ id t, ClassTrap.ofClass d p id = .ok t → c.Extracts p (t.extraction p)

variable {c : Conduct}

theorem obeys_drainClass (hc : c.OfCounts) (h : d.FilesIn p here touched) (he : d.Extracts p c)
    (s : DrainSummary) (id : DeclId) :
    Obeys c here touched (d.drainClass p s id : Task OnDisk _) := by
  have hclass : Obeys c here touched (d.extractClass p id : Task OnDisk _) :=
    obeys_extractClass (h id) fun t ht => obeys_extracting hc (he id t ht) _ _
  refine obeys_tryCatch (obeys_bind hclass fun written _ => ?_) fun e _ => ?_
  · split <;> exact obeys_pure _
  · split
    · exact obeys_throw fun _ _ => hc.mayStop
    · exact obeys_pure _

theorem obeys_drainWithin (hc : c.OfCounts) (h : d.FilesIn p here touched) (he : d.Extracts p c)
    (fuel : Nat) (s : DrainSummary) :
    Obeys c here touched (d.drainWithin p fuel s : Task OnDisk _) := by
  induction fuel generalizing s with
  | zero => exact obeys_throw fun _ _ => hc.mayStop
  | succ fuel ih =>
    refine obeys_bind (obeys_modifyGet fun _ => hc.leads rfl) fun batch _ => ?_
    split
    · exact obeys_pure _
    · exact obeys_bind (obeys_foldlM (obeys_drainClass hc h he) batch _) fun s _ => ih s

theorem obeys_writeSet_of {source : String}
    (hset : touched ((d.setPath source).locationFrom here))
    (hfresh : ∀ n, touched ((Disk.within (d.setPath source).directory
      (Disk.temporaryName "." ".tmp" n)).locationFrom here)) :
    Obeys c here touched (d.writeSet source : Task OnDisk _) := by
  have hwritten (created : List Path) : Obeys c here touched (do
      let contents := String.join (created.map fun trap => trap.text ++ "\n")
      Task.io (d.setPath source) (Files.replace (d.setPath source).directory (d.setPath source)
        "." ".tmp" contents.toUTF8)
      return d.setPath source : Task OnDisk Path) :=
    obeys_bind (obeys_io (OnDisk.frames_replace hfresh hset _)) fun _ _ => obeys_pure _
  refine obeys_bind (obeys_modifyGet fun _ => c.same rfl rfl) fun g _ => ?_
  refine obeys_bind (obeys_modifyGet fun _ => c.same rfl rfl) fun _ _ => ?_
  split
  · exact obeys_bind (obeys_io (OnDisk.frames_makeFolders _)) fun _ _ => hwritten g.created
  · exact hwritten g.created

end Destination

/-! ## Class traps lie apart -/

namespace Path

theorem withSuffix_eq (p : Path) (suffix : String) :
    ∃ front, p.withSuffix suffix = ⟨front ++ suffix⟩ := by
  have hjoin (q : Path) : ∃ front, q.join ⟨p.fileName?.getD "" ++ suffix⟩ = ⟨front ++ suffix⟩ := by
    obtain ⟨front, hfront⟩ := text_join q ⟨p.fileName?.getD "" ++ suffix⟩
    have htext : (q.join ⟨p.fileName?.getD "" ++ suffix⟩).text =
        front ++ p.fileName?.getD "" ++ suffix := by rw [hfront, String.append_assoc]
    exact ⟨front ++ p.fileName?.getD "", congrArg Path.mk htext⟩
  unfold withSuffix withFileName
  split
  · exact hjoin _
  · exact hjoin _

theorem nameEnds_withSuffix (here : Location) (p : Path) {suffix : String} {c : Char}
    (hslash : '/' ∉ suffix.toList) (hlast : suffix.toList.getLast? = some c) (hc : c ≠ '.') :
    NameEnds suffix ((p.withSuffix suffix).locationFrom here) := by
  obtain ⟨front, hfront⟩ := withSuffix_eq p suffix
  rw [hfront]
  exact nameEnds_locationFrom here front hslash hlast hc

end Path

def OffSourceTraps (location : Location) : Prop :=
  ¬Path.NameEnds ".trap" location ∧ ¬Path.NameEnds ".trap.tmp" location

section OffSourceTraps

open IrFacts.Path

variable {here location : Location}

theorem offSourceTraps_of_nameEnds {ending : String} (h : NameEnds ending location)
    (htrap : ¬ending.toList <:+ ".trap".toList ∧ ¬".trap".toList <:+ ending.toList)
    (htemporary : ¬ending.toList <:+ ".trap.tmp".toList ∧ ¬".trap.tmp".toList <:+ ending.toList) :
    OffSourceTraps location :=
  ⟨not_nameEnds h htrap.1 htrap.2, not_nameEnds h htemporary.1 htemporary.2⟩

/-- Six letters and digits stand where a trap in the making has its first ending. -/
theorem offSourceTraps_temporary (folder : Path) (front : String) (n : Nat) :
    OffSourceTraps
      ((Disk.within folder (Disk.temporaryName front ".tmp" n)).locationFrom here) := by
  have hends := Disk.nameEnds_temporary here folder front ".tmp" n (by decide) rfl (by decide)
  have hlong : ¬(Disk.nameBody n ++ ".tmp").toList <:+ ".trap.tmp".toList := fun h => by
    have hlength := h.length_le
    simp [Disk.nameBody, Disk.length_nameDigits] at hlength
  have hdot : ¬(".trap" ++ ".tmp").toList <:+ (Disk.nameBody n ++ ".tmp").toList :=
    Disk.not_suffix_nameBody n (by decide)
  exact ⟨not_nameEnds hends.of_append (by decide) (by decide), not_nameEnds hends hlong hdot⟩

end OffSourceTraps

theorem ClassTrap.nameEnds_of_ofClass (here : Location) {d : Destination} {p : Program}
    {id : DeclId} {t : ClassTrap} (ht : ofClass d p id = .ok t) :
    Path.NameEnds ".trap.gz" (t.trap.locationFrom here) ∧
      Path.NameEnds ".dep" (t.dependencies.locationFrom here) ∧
      Path.NameEnds ".metadata" (t.metadata.locationFrom here) := by
  obtain ⟨stem, htrap, hdep, hmeta, -⟩ := stem_of_ofClass ht
  have hends {path : Path} {ending : String} {c : Char} (hpath : path.text = stem ++ ending)
      (hslash : '/' ∉ ending.toList) (hlast : ending.toList.getLast? = some c) (hc : c ≠ '.') :
      Path.NameEnds ending (path.locationFrom here) := by
    rw [show path = ⟨stem ++ ending⟩ from congrArg Path.mk hpath]
    exact Path.nameEnds_locationFrom here stem hslash hlast hc
  exact ⟨hends htrap (by decide) rfl (by decide), hends hdep (by decide) rfl (by decide),
    hends hmeta (by decide) rfl (by decide)⟩

namespace Destination

open IrFacts.Task

variable {here : Location} {d : Destination} {p : Program}

theorem filesIn_offSourceTraps : d.FilesIn p here OffSourceTraps := by
  intro id t ht
  obtain ⟨htrap, hdep, hmeta⟩ := ClassTrap.nameEnds_of_ofClass here ht
  refine ⟨⟨?dependencies, ?metadata, ?temporary⟩, ?trap⟩
  case dependencies => exact offSourceTraps_of_nameEnds hdep (by decide) (by decide)
  case metadata => exact offSourceTraps_of_nameEnds hmeta (by decide) (by decide)
  case trap => exact offSourceTraps_of_nameEnds htrap (by decide) (by decide)
  case temporary =>
    intro folder back n hback
    simp only [ClassTrap.temporaryEndings, List.mem_cons, List.not_mem_nil, or_false] at hback
    rcases hback with rfl | rfl
    · exact offSourceTraps_temporary folder "." n
    · have hends := Disk.nameEnds_temporary here folder "." ".trap.gz.tmp" n (by decide) rfl
        (by decide)
      exact offSourceTraps_of_nameEnds hends.of_append (by decide) (by decide)

variable {c : Conduct}

theorem obeys_drain (hc : c.OfCounts) (he : d.Extracts p c) :
    Obeys c here OffSourceTraps (d.drain p : Task OnDisk _) :=
  obeys_drainWithin hc filesIn_offSourceTraps he _ _

theorem obeys_writeSet {source : String} :
    Obeys c here OffSourceTraps (d.writeSet source : Task OnDisk _) := by
  refine obeys_writeSet_of ?_ fun n => offSourceTraps_temporary _ _ n
  exact offSourceTraps_of_nameEnds (Path.nameEnds_withSuffix here _ (by decide) rfl (by decide))
    (by decide) (by decide)

theorem extracts_counting : d.Extracts p counting := fun _ t _ =>
  counting_extracts (ClassTrap.oblivious_extraction t p)

theorem confined_drain : Confined here OffSourceTraps (d.drain p : Task OnDisk _) :=
  obeys_drain counting_ofCounts extracts_counting

theorem confined_writeSet {source : String} :
    Confined here OffSourceTraps (d.writeSet source : Task OnDisk _) := obeys_writeSet

end Destination

end IrFacts
