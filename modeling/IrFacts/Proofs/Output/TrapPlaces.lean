import IrFacts.Output.ClassTrap
import IrFacts.Proofs.Files.Locations
import IrFacts.Proofs.Run.Names

/-!
# Where class traps lie

The paths of a trap and of its sidecars differ in their endings only. So the
metadata of classes lie where no other file of a class does, and below the trap
directory, unless a name that starts with a dot or a slash leads out of it.
-/

set_option autoImplicit false

namespace IrFacts

namespace Path

theorem text_join (p q : Path) : ∃ front, (p.join q).text = front ++ q.text := by
  unfold join
  split
  · exact ⟨"", by simp⟩
  · split
    · exact ⟨p.text, rfl⟩
    · exact ⟨p.text ++ "/", rfl⟩

theorem text_join_relative (p : Path) : ∃ front, ∀ q : Path, q.isAbsolute = false →
    (p.join q).text = front ++ q.text := by
  by_cases h : (p.text = "" || p.text.toList.getLast? = some '/') = true
  · exact ⟨p.text, fun q hq => by rw [join, hq, if_neg Bool.false_ne_true, if_pos h]⟩
  · exact ⟨p.text ++ "/", fun q hq => by rw [join, hq, if_neg Bool.false_ne_true, if_neg h]⟩

end Path

theorem toList_dotsToSlashes (name : String) :
    (dotsToSlashes name).toList = name.toList.map fun c => if c = '.' then '/' else c := by
  simp [dotsToSlashes]

theorem dotsToSlashes_inj {a b : String} (ha : '/' ∉ a.toList) (hb : '/' ∉ b.toList)
    (h : dotsToSlashes a = dotsToSlashes b) : a = b := by
  have hback {name : String} (hslash : '/' ∉ name.toList) :
      (dotsToSlashes name).toList.map (fun c => if c = '/' then '.' else c) = name.toList := by
    rw [toList_dotsToSlashes, List.map_map]
    refine (List.map_congr_left fun c hc => ?_).trans (List.map_id _)
    have hc : c ≠ '/' := fun he => hslash (he ▸ hc)
    by_cases hdot : c = '.' <;> simp [hdot, hc]
  apply String.toList_inj.mp
  rw [← hback ha, h, hback hb]

namespace ClassPath

theorem base_of_trap {stem : String} {trap : Path} (h : trap.text = stem ++ trapEnding) :
    base trap = stem := by
  have hlist : trap.text.toList = stem.toList ++ trapEnding.toList := by
    rw [h, String.toList_append]
  rw [base, if_pos (by rw [hlist]; exact List.isSuffixOf_iff_suffix.mpr (List.suffix_append ..)),
    hlist]
  simp

theorem text_sidecar {stem : String} {trap : Path} (h : trap.text = stem ++ trapEnding)
    (suffix : String) : (sidecar trap suffix).text = stem ++ suffix := by
  rw [sidecar, base_of_trap h]

end ClassPath

namespace ClassTrap

variable {d : Destination} {p : Program} {id : DeclId} {t : ClassTrap}

theorem ofClass_ok (h : ofClass d p id = .ok t) : ∃ name declaration,
    p.binaryName? id = some name ∧ p.decl? id = some declaration ∧ t.id = id ∧
      t.fingerprint = Sha256.hexDigest (p.fingerprintBytes id declaration) ∧
      t.trap = d.trapDir.join (ClassPath.ofBinaryName name) ∧
      t.dependencies = ClassPath.dependencies t.trap ∧
      t.metadata = ClassPath.metadata t.trap := by
  unfold ofClass Program.fingerprint at h
  cases hname : p.binaryName? id with
  | none =>
    rw [hname] at h
    cases h
  | some name =>
    cases hdecl : p.decl? id with
    | none =>
      rw [hname, hdecl] at h
      cases h
    | some declaration =>
      rw [hname, hdecl] at h
      cases h
      refine ⟨name, declaration, rfl, rfl, ?_⟩
      dsimp only
      exact ⟨rfl, rfl, rfl, rfl, rfl⟩

theorem ne_stopped_of_ofClass {e : ExtractError} (h : ofClass d p id = .error e) (stop : Stop) :
    e ≠ .stopped stop := by
  rintro rfl
  unfold ofClass at h
  split at h
  · cases h
  · split at h <;> cases h

/-- The three paths of a class trap. The stem contains the name but for its
dots. -/
theorem stem_of_ofClass (h : ofClass d p id = .ok t) : ∃ stem,
    t.trap.text = stem ++ ".trap.gz" ∧ t.dependencies.text = stem ++ ".dep" ∧
      t.metadata.text = stem ++ ".metadata" ∧
      ∀ name, p.binaryName? id = some name → ∀ c ∈ name.toList, c ≠ '.' → c ∈ stem.toList := by
  obtain ⟨name, -, hname, -, -, -, htrap, hdep, hmeta⟩ := ofClass_ok h
  obtain ⟨outer, houter⟩ := Path.text_join d.trapDir (ClassPath.ofBinaryName name)
  obtain ⟨inner, hinner⟩ := Path.text_join ⟨"classes"⟩
    ⟨dotsToSlashes name ++ ".members" ++ ClassPath.trapEnding⟩
  have htext : t.trap.text =
      outer ++ inner ++ dotsToSlashes name ++ ".members" ++ ClassPath.trapEnding := by
    rw [htrap, houter, ClassPath.ofBinaryName, hinner]
    simp only [String.append_assoc]
  refine ⟨outer ++ inner ++ dotsToSlashes name ++ ".members", htext, ?_, ?_, ?_⟩
  · rw [hdep, ClassPath.dependencies, ClassPath.text_sidecar htext]
  · rw [hmeta, ClassPath.metadata, ClassPath.text_sidecar htext]
  · intro other hother c hc hdot
    cases hname.symm.trans hother
    simp only [String.toList_append, toList_dotsToSlashes, List.mem_append, List.mem_map]
    exact .inl (.inr ⟨c, hc, if_neg hdot⟩)

/-! ## Metadata lie apart -/

def place (t : ClassTrap) (here : Location) : Location := t.metadata.locationFrom here

/-- Where the files of one class may lie: its metadata, and whatever ends in
another letter than metadata do. -/
def Own (t : ClassTrap) (here location : Location) : Prop :=
  Path.lastChar? location ≠ some 'a' ∨ location = t.place here

variable {here : Location}

theorem own_metadata : t.Own here (t.metadata.locationFrom here) := .inr rfl

/-! ### How the places end -/

theorem lastChar?_trap (h : ofClass d p id = .ok t) :
    Path.lastChar? (t.trap.locationFrom here) = some 'z' := by
  obtain ⟨stem, htrap, -⟩ := stem_of_ofClass h
  rw [show t.trap = ⟨stem ++ ".trap.gz"⟩ from congrArg Path.mk htrap]
  exact Path.lastChar?_locationFrom here stem (by decide) rfl (by decide)

theorem lastChar?_dependencies (h : ofClass d p id = .ok t) :
    Path.lastChar? (t.dependencies.locationFrom here) = some 'p' := by
  obtain ⟨stem, -, hdep, -⟩ := stem_of_ofClass h
  rw [show t.dependencies = ⟨stem ++ ".dep"⟩ from congrArg Path.mk hdep]
  exact Path.lastChar?_locationFrom here stem (by decide) rfl (by decide)

theorem lastChar?_place (h : ofClass d p id = .ok t) :
    Path.lastChar? (t.place here) = some 'a' := by
  obtain ⟨stem, -, -, hmeta, -⟩ := stem_of_ofClass h
  rw [place, show t.metadata = ⟨stem ++ ".metadata"⟩ from congrArg Path.mk hmeta]
  exact Path.lastChar?_locationFrom here stem (by decide) rfl (by decide)

def temporaryEndings : List String := [".tmp", ".trap.gz.tmp"]

theorem lastChar?_temporary (folder : Path) (front : String) {back : String} (n : Nat)
    (hback : back ∈ temporaryEndings) :
    Path.lastChar? ((Disk.within folder (Disk.temporaryName front back n)).locationFrom here) =
      some 'p' := by
  obtain ⟨hslash, hlast⟩ : '/' ∉ back.toList ∧ back.toList.getLast? = some 'p' := by
    simp only [temporaryEndings, List.mem_cons, List.not_mem_nil, or_false] at hback
    rcases hback with rfl | rfl <;> exact ⟨by decide, rfl⟩
  obtain ⟨outer, houter⟩ := Path.text_join folder.fromHere ⟨Disk.temporaryName front back n⟩
  have htext : Disk.within folder (Disk.temporaryName front back n) =
      ⟨outer ++ front ++ String.ofList (Disk.nameDigits 6 n) ++ back⟩ := by
    refine congrArg Path.mk (houter.trans ?_)
    simp only [Disk.temporaryName, String.append_assoc]
  rw [htext]
  exact Path.lastChar?_locationFrom here _ hslash hlast (by decide)

/-! ### Where the files of a class lie -/

/-- The sidecars of a class and its temporary files lie in `touched`. -/
structure SidecarsIn (t : ClassTrap) (here : Location) (touched : Location → Prop) : Prop where
  dependencies : touched (t.dependencies.locationFrom here)
  metadata : touched (t.place here)
  temporary : ∀ (folder : Path) {back : String} (n : Nat), back ∈ temporaryEndings →
    touched ((Disk.within folder (Disk.temporaryName "." back n)).locationFrom here)

structure FilesIn (t : ClassTrap) (here : Location) (touched : Location → Prop) : Prop
    extends t.SidecarsIn here touched where
  trap : touched (t.trap.locationFrom here)

theorem filesIn_own (h : ofClass d p id = .ok t) : t.FilesIn here (t.Own here) where
  dependencies := .inl (by simp [lastChar?_dependencies h])
  metadata := own_metadata
  temporary folder _ n hback := .inl (by simp [lastChar?_temporary folder "." n hback])
  trap := .inl (by simp [lastChar?_trap h])

/-- The places of a trap and of its metadata, and those where a temporary file or a list
of dependencies may lie. -/
def Footprint (t : ClassTrap) (here location : Location) : Prop :=
  location = t.trap.locationFrom here ∨ location = t.place here ∨
    Path.lastChar? location = some 'p'

theorem filesIn_footprint (h : ofClass d p id = .ok t) : t.FilesIn here (t.Footprint here) where
  dependencies := .inr (.inr (lastChar?_dependencies h))
  metadata := .inr (.inl rfl)
  temporary folder _ n hback := .inr (.inr (lastChar?_temporary folder "." n hback))
  trap := .inl rfl

theorem place_of_own {u : ClassTrap} {other : DeclId} (hu : ofClass d p other = .ok u)
    (h : t.Own here (u.place here)) : u.place here = t.place here :=
  h.resolve_left fun hlast => hlast (lastChar?_place hu)

theorem places_of_stem (here : Location) (h : ofClass d p id = .ok t) : ∃ folder last,
    t.trap.locationFrom here = folder ++ [last ++ ".trap.gz"] ∧
      t.place here = folder ++ [last ++ ".metadata"] := by
  obtain ⟨stem, htrap, -, hmeta, -⟩ := stem_of_ofClass h
  obtain ⟨folder, last, hends⟩ := Path.locationFrom_ending here stem
  refine ⟨folder, last, ?_, ?_⟩
  · rw [show t.trap = ⟨stem ++ ".trap.gz"⟩ from congrArg Path.mk htrap]
    exact hends (by decide) rfl (by decide)
  · rw [place, show t.metadata = ⟨stem ++ ".metadata"⟩ from congrArg Path.mk hmeta]
    exact hends (by decide) rfl (by decide)

/-- Places of which the last names end alike are one just if all else is alike. -/
theorem concat_stem_inj {folder folder' : Location} {last last' : String} (ending : String) :
    folder' ++ [last' ++ ending] = folder ++ [last ++ ending] ↔
      folder' = folder ∧ last' = last := by
  constructor
  · intro h
    obtain ⟨hfolder, hnames⟩ := List.append_inj' h rfl
    exact ⟨hfolder, (String.append_left_inj _).mp (List.singleton_inj.mp hnames)⟩
  · rintro ⟨rfl, rfl⟩
    rfl

/-- The traps of two classes lie in one place just if their metadata do. -/
theorem trap_eq_iff {u : ClassTrap} {other : DeclId} (ht : ofClass d p id = .ok t)
    (hu : ofClass d p other = .ok u) :
    u.trap.locationFrom here = t.trap.locationFrom here ↔ u.place here = t.place here := by
  obtain ⟨folder, last, htrap, hplace⟩ := places_of_stem here ht
  obtain ⟨folder', last', htrap', hplace'⟩ := places_of_stem here hu
  rw [htrap, htrap', hplace, hplace', concat_stem_inj, concat_stem_inj]

theorem not_footprint {u : ClassTrap} {other : DeclId} (ht : ofClass d p id = .ok t)
    (hu : ofClass d p other = .ok u) (hne : u.place here ≠ t.place here) :
    ¬t.Footprint here (u.place here) ∧ ¬t.Footprint here (u.trap.locationFrom here) := by
  have ha : Path.lastChar? (u.place here) = some 'a' := lastChar?_place hu
  have hz : Path.lastChar? (u.trap.locationFrom here) = some 'z' := lastChar?_trap hu
  constructor
  · rintro (h | h | h)
    · rw [h, lastChar?_trap ht] at ha
      cases ha
    · exact hne h
    · rw [h] at ha
      cases ha
  · rintro (h | h | h)
    · exact hne ((trap_eq_iff ht hu).mp h)
    · rw [h, lastChar?_place ht] at hz
      cases hz
    · rw [h] at hz
      cases hz

/-! ## Class traps lie below the trap directory -/

/-- A name that starts with a dot or a slash leads to the root. -/
def LeadsOut (name : String) : Prop := name.toList.head? = some '.' ∨ name.toList.head? = some '/'

instance (name : String) : Decidable (LeadsOut name) := inferInstanceAs (Decidable (_ ∨ _))

theorem isAbsolute_of_name {name : String} (h : ¬LeadsOut name) (ending : String)
    (hending : ending.toList.head? ≠ some '/') :
    Path.isAbsolute ⟨dotsToSlashes name ++ ending⟩ = false := by
  obtain ⟨hdot, hslash⟩ := not_or.mp h
  rw [Path.isAbsolute, String.toList_append, toList_dotsToSlashes]
  cases hname : name.toList with
  | nil => simpa using hending
  | cons c rest =>
    have hc : c ≠ '.' := fun he => hdot (by rw [hname, he, List.head?_cons])
    have hc' : c ≠ '/' := fun he => hslash (by rw [hname, he, List.head?_cons])
    simp [hc, hc']

/-- What is left of a name has no dots, so that it leads downwards only. -/
theorem notMem_segments_dotsToSlashes (name : String) {ending : String} {c : Char}
    (hslash : '/' ∉ ending.toList) (hlast : ending.toList.getLast? = some c) (hc : c ≠ '.') :
    ".." ∉ Path.segments ⟨dotsToSlashes name ++ ending⟩ := by
  obtain ⟨before, last, h⟩ := Path.segments_append (dotsToSlashes name)
  have hbefore := h "" List.not_mem_nil
  rw [String.append_empty, String.append_empty] at hbefore
  rw [h ending hslash]
  intro hup
  rcases List.mem_append.mp hup with hup | hup
  · have hmem : ".." ∈ Path.segments ⟨dotsToSlashes name⟩ :=
      hbefore ▸ List.mem_append_left _ hup
    obtain ⟨segment, hsegment, htext⟩ := List.mem_map.mp hmem
    have hdot : '.' ∈ (dotsToSlashes name).toList := by
      refine Path.mem_of_mem_segmentsOf hsegment ?_
      have hlist := congrArg String.toList htext
      rw [String.toList_ofList] at hlist
      rw [hlist]
      decide
    rw [toList_dotsToSlashes] at hdot
    obtain ⟨d, -, hd⟩ := List.mem_map.mp hdot
    split at hd
    · cases hd
    · next hne => exact hne hd
  · have hend : (last ++ ending).toList.getLast? = some c := by
      rw [String.toList_append, List.getLast?_append, hlast]
      rfl
    exact (Path.isName_of_getLast? hend hc).2 (List.mem_singleton.mp hup).symm

theorem locations_of_name (here : Location) (ht : ofClass d p id = .ok t) {name : String}
    (hname : p.binaryName? id = some name) (hout : ¬LeadsOut name) :
    let reached (ending : String) := Path.walk (d.trapDir.locationFrom here ++ ["classes"])
      (Path.segments ⟨dotsToSlashes name ++ (".members" ++ ending)⟩)
    t.trap.locationFrom here = reached ".trap.gz" ∧
      t.dependencies.locationFrom here = reached ".dep" ∧ t.place here = reached ".metadata" := by
  intro reached
  obtain ⟨name, -, hname', -, -, -, htrap, hdep, hmeta⟩ := ofClass_ok ht
  cases hname.symm.trans hname'
  obtain ⟨front, hfront⟩ := Path.text_join_relative d.trapDir
  obtain ⟨rest, hrest⟩ : ∃ rest, rest = dotsToSlashes name ++ ".members" := ⟨_, rfl⟩
  have hclass : ClassPath.ofBinaryName name =
      ⟨"classes" ++ "/" ++ (rest ++ ClassPath.trapEnding)⟩ := by
    have hinner : Path.isAbsolute ⟨rest ++ ClassPath.trapEnding⟩ = false := by
      rw [hrest, String.append_assoc]
      exact isAbsolute_of_name hout _ (by decide)
    rw [ClassPath.ofBinaryName, Path.join, ← hrest, hinner]
    rfl
  have htext : t.trap.text = front ++ ("classes" ++ "/" ++ rest) ++ ClassPath.trapEnding := by
    rw [htrap, hclass, hfront _ (by simp [Path.isAbsolute])]
    simp only [String.append_assoc]
  -- whatever its ending, a file with this stem is reached from the trap directory
  have hreached {path : Path} {ending : String}
      (hpath : path.text = front ++ ("classes" ++ "/" ++ rest) ++ ending) :
      path.locationFrom here = reached ending := by
    have hjoin : path = d.trapDir.join ⟨"classes" ++ "/" ++ (rest ++ ending)⟩ := by
      have hsame := hfront ⟨"classes" ++ "/" ++ (rest ++ ending)⟩ (by simp [Path.isAbsolute])
      refine congrArg Path.mk (hpath.trans (Eq.trans ?_ hsame.symm))
      simp only [String.append_assoc]
    have hname : Path.IsName "classes" := ⟨rfl, by decide⟩
    rw [hjoin, Path.locationFrom_join here _ (by simp [Path.isAbsolute]), Path.segments_slash,
      Path.walk_append, show Path.segments ⟨"classes"⟩ = ["classes"] from rfl, Path.walk_name hname,
      hrest, String.append_assoc]
  refine ⟨hreached htext, hreached ?_, hreached ?_⟩
  · rw [hdep, ClassPath.dependencies, ClassPath.text_sidecar htext]
  · rw [hmeta, ClassPath.metadata, ClassPath.text_sidecar htext]

theorem place_eq (here : Location) (ht : ofClass d p id = .ok t) {name : String}
    (hname : p.binaryName? id = some name) (hout : ¬LeadsOut name) :
    t.place here = Path.walk (d.trapDir.locationFrom here ++ ["classes"])
      (Path.segments ⟨dotsToSlashes name ++ ".members.metadata"⟩) :=
  (locations_of_name here ht hname hout).2.2

/-- The files of a class whose name does not lead out of it lie below the trap directory. -/
theorem locations_below (here : Location) (ht : ofClass d p id = .ok t) {name : String}
    (hname : p.binaryName? id = some name) (hout : ¬LeadsOut name) :
    let Lies (location : Location) :=
      ∃ more, more ≠ [] ∧ location = d.trapDir.locationFrom here ++ more
    Lies (t.trap.locationFrom here) ∧ Lies (t.dependencies.locationFrom here) ∧
      Lies (t.place here) := by
  intro Lies
  have hlies {ending : String} {c : Char} (hslash : '/' ∉ (".members" ++ ending).toList)
      (hlast : (".members" ++ ending).toList.getLast? = some c) (hc : c ≠ '.') :
      Lies (Path.walk (d.trapDir.locationFrom here ++ ["classes"])
        (Path.segments ⟨dotsToSlashes name ++ (".members" ++ ending)⟩)) := by
    have hdown := notMem_segments_dotsToSlashes name hslash hlast hc
    obtain ⟨more, hmore⟩ := Path.walk_below hdown (d.trapDir.locationFrom here ++ ["classes"])
    exact ⟨"classes" :: more, List.cons_ne_nil _ _, by rw [← hmore, List.append_assoc]; rfl⟩
  obtain ⟨htrap, hdep, hmeta⟩ := locations_of_name here ht hname hout
  rw [htrap, hdep, hmeta]
  exact ⟨hlies (by decide) rfl (by decide), hlies (by decide) rfl (by decide),
    hlies (by decide) rfl (by decide)⟩

/-! ## Names tell metadata apart -/

/-- A name without slashes, in which something stands before and behind every dot. -/
def PartedByDots (name : String) : Prop :=
  '/' ∉ name.toList ∧ "" ∉ Path.segments ⟨dotsToSlashes name⟩

theorem PartedByDots.not_leadsOut {name : String} (h : PartedByDots name) : ¬LeadsOut name := by
  obtain ⟨hslash, hparts⟩ := h
  have hfirst (rest : List Char) : [] ∈ Path.segmentsOf ('/' :: rest) := List.mem_cons_self ..
  rintro (hhead | hhead)
  · apply hparts
    obtain ⟨rest, hname⟩ := List.head?_eq_some_iff.mp hhead
    rw [Path.segments, toList_dotsToSlashes, hname]
    exact List.mem_map_of_mem (f := String.ofList) (hfirst _)
  · exact hslash (List.mem_of_head? hhead)

theorem PartedByDots.isName {name : String} (h : PartedByDots name) {segment : String}
    (hsegment : segment ∈ Path.segments ⟨dotsToSlashes name ++ ".members.metadata"⟩) :
    Path.IsName segment := by
  obtain ⟨before, last, hends⟩ := Path.segments_append (dotsToSlashes name)
  have hparts := hends "" List.not_mem_nil
  rw [String.append_empty, String.append_empty] at hparts
  rw [hends _ (by decide)] at hsegment
  rcases List.mem_append.mp hsegment with hbefore | hlast
  · have hmem : segment ∈ Path.segments ⟨dotsToSlashes name⟩ :=
      hparts ▸ List.mem_append_left _ hbefore
    have hne : segment ≠ "" := fun he => h.2 (he ▸ hmem)
    have hdot : '.' ∉ segment.toList := by
      obtain ⟨chars, hchars, rfl⟩ := List.mem_map.mp hmem
      rw [String.toList_ofList]
      intro hdot
      have hdot := Path.mem_of_mem_segmentsOf hchars hdot
      rw [toList_dotsToSlashes] at hdot
      obtain ⟨c, -, hc⟩ := List.mem_map.mp hdot
      split at hc
      · cases hc
      · next hother => exact hother hc
    have hother (dots : String) (hmem : '.' ∈ dots.toList) : segment ≠ dots :=
      fun he => hdot (he ▸ hmem)
    refine ⟨?_, hother ".." (by decide)⟩
    simp [Path.isJunk, hne, hother "." (by decide)]
  · rw [List.mem_singleton.mp hlast]
    refine Path.isName_of_getLast? (c := 'a') ?_ (by decide)
    rw [String.toList_append, List.getLast?_append]
    rfl

theorem name_of_place {u : ClassTrap} {other : DeclId} {name name' : String}
    (ht : ofClass d p id = .ok t) (hu : ofClass d p other = .ok u)
    (hname : p.binaryName? id = some name) (hname' : p.binaryName? other = some name')
    (h : PartedByDots name) (h' : PartedByDots name') (hplace : t.place here = u.place here) :
    name = name' := by
  rw [place_eq here ht hname h.not_leadsOut, place_eq here hu hname' h'.not_leadsOut,
    Path.walk_names fun _ => h.isName, Path.walk_names fun _ => h'.isName] at hplace
  have hpath := Path.segments_inj (List.append_cancel_left hplace)
  have hslashes : dotsToSlashes name = dotsToSlashes name' :=
    (String.append_left_inj _).mp (congrArg Path.text hpath)
  exact dotsToSlashes_inj h.1 h'.1 hslashes

end ClassTrap

end IrFacts
