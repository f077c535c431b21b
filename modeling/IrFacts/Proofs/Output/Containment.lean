import IrFacts.Proofs.Output.Targets

/-!
# Outputs stay below their folders

Dots, empty names and a leading slash are dropped from the path of a source
file, and the dots of a class name become slashes. So the traps lie strictly
below the trap directory and the copies strictly below the archive, as long as
a name is left of every source path, and no class name starts with what becomes
a slash.
-/

set_option autoImplicit false

namespace IrFacts

def Path.Below (folder location : Location) : Prop := ∃ more, more ≠ [] ∧ location = folder ++ more

namespace Path.Below

variable {folder location : Location}

theorem concat (folders : List String) (name : String) :
    Below folder (folder ++ folders ++ [name]) :=
  ⟨folders ++ [name], by simp, List.append_assoc ..⟩

theorem beside (h : Below folder location) (name : String) :
    Below folder (location.dropLast ++ [name]) := by
  obtain ⟨more, hmore, rfl⟩ := h
  rw [List.dropLast_append_of_ne_nil hmore]
  exact concat more.dropLast name

end Path.Below

/-- Names of source files and of classes that lead nowhere but down. -/
structure Program.LeadsDown (p : Program) : Prop where
  files : ∀ entry ∈ p.files, (Path.mk entry.path).names ≠ []
  classes : ∀ id name, p.binaryName? id = some name → ¬ClassTrap.LeadsOut name

namespace Config

open IrFacts.Path

variable {config : Config} {p : Program} {here : Location} {source : String}

/-- Below the folder of the traps or the one of the copies. -/
def Inside (config : Config) (here location : Location) : Prop :=
  Below (config.trapDir.locationFrom here) location ∨
    Below (config.sourceArchiveDir.locationFrom here) location

theorem trapPlace_below (h : (Path.mk source).names ≠ []) :
    Below (config.trapDir.locationFrom here) (config.trapPlace here source) := by
  obtain hnone | ⟨folders, last, hlast⟩ := List.eq_nil_or_concat' (Path.mk source).names
  · exact absurd hnone h
  · exact trapPlace_of_names hlast ▸ .concat folders _

theorem setPlace_below (h : (Path.mk source).names ≠ []) :
    Below (config.trapDir.locationFrom here) (config.setPlace here source) := by
  obtain hnone | ⟨folders, last, hlast⟩ := List.eq_nil_or_concat' (Path.mk source).names
  · exact absurd hnone h
  · exact setPlace_of_names hlast ▸ .concat folders _

theorem copyPlace_below (h : (Path.mk source).names ≠ []) :
    Below (config.sourceArchiveDir.locationFrom here) (config.copyPlace here source) :=
  ⟨_, h, copyPlace_of_names h⟩

theorem classTrap_below (hp : p.LeadsDown) {id : DeclId} {t : ClassTrap}
    (ht : ClassTrap.ofClass config.destination p id = .ok t) :
    Below (config.trapDir.locationFrom here) (t.trap.locationFrom here) ∧
      Below (config.trapDir.locationFrom here) (t.dependencies.locationFrom here) ∧
      Below (config.trapDir.locationFrom here) (t.metadata.locationFrom here) := by
  obtain ⟨name, -, hname, -⟩ := ClassTrap.ofClass_ok ht
  obtain ⟨htrap, hdep, hmeta⟩ :=
    ClassTrap.locations_below here ht hname (hp.classes id name hname)
  exact ⟨htrap, hdep, hmeta⟩

theorem Target.inside (hp : p.LeadsDown) {location : Location}
    (h : config.Target here p location) : config.Inside here location := by
  cases h with
  | copy file named => exact .inr (copyPlace_below named)
  | trap file => exact .inl (trapPlace_below (hp.files _ file))
  | set file => exact .inl (setPlace_below (hp.files _ file))
  | classTrap ofClass => exact .inl (classTrap_below hp ofClass).1
  | dependencies ofClass => exact .inl (classTrap_below hp ofClass).2.1
  | metadata ofClass => exact .inl (classTrap_below hp ofClass).2.2

theorem Inside.beside {location : Location} (h : config.Inside here location) (name : String) :
    config.Inside here (location.dropLast ++ [name]) :=
  h.imp (·.beside name) (·.beside name)

/-- **Outputs stay below their folders.** Source paths with names and class names that do not lead
out of it have their traps, sets and sidecars strictly below the trap directory and their copies
strictly below the archive. Whatever becomes of a run, every new file lies below one of the two or
is the invocation trap, a file anywhere else stays where it is, and what is in an older file is not
changed. -/
theorem run_contained {now : OnDisk Nat} (hnow : ∀ k, (now k).2 = k) (hp : p.LeadsDown) (k : Disk) :
    let traps := config.trapDir.locationFrom k.here
    let archive := config.sourceArchiveDir.locationFrom k.here
    let invocation := config.invocationTrap.locationFrom k.here
    (∀ entry ∈ p.files, Below traps (config.trapPlace k.here entry.path) ∧
      Below traps (config.setPlace k.here entry.path) ∧
      Below archive (config.copyPlace k.here entry.path)) ∧
    (∀ id t, ClassTrap.ofClass config.destination p id = .ok t →
      Below traps (t.trap.locationFrom k.here) ∧
      Below traps (t.dependencies.locationFrom k.here) ∧
      Below traps (t.metadata.locationFrom k.here)) ∧
    Disk.Spares (fun id => id < k.nextFile ∧ k.entry? invocation ≠ some (.file id))
      (config.Inside k.here)
      (fun location => config.Inside k.here location ∨ location = invocation) k
      (config.run p now k).2 := by
  intro traps archive invocation
  refine ⟨fun entry hentry => ?_, fun id t ht => classTrap_below hp ht, ?_⟩
  · have hnamed := hp.files entry hentry
    exact ⟨trapPlace_below hnamed, setPlace_below hnamed, copyPlace_below hnamed⟩
  have hroom (location : Location) (h : config.Target k.here p location) :
      Disk.Room (config.Inside k.here)
        (fun location => config.Inside k.here location ∨ location = invocation) location := by
    have hinside := h.inside hp
    exact ⟨hinside, .inl hinside, fun name => .inl (hinside.beside _)⟩
  refine spares_run hnow ⟨rfl, fun id hid => hid.1⟩ (fun entry hentry => ?_)
    (roomIn_of_targets hroom) (fun entry hentry => ?_) (.inr rfl) fun id hid hkept => hkept.2 hid
  · refine fullRoomFor_of_targets hroom (fun other hother name => ?_) hentry
    exact .inl ((Target.trap hother).inside hp |>.beside _)
  · have hinside : config.Inside k.here (config.trapPlace k.here entry.path) :=
      (Target.trap hentry).inside hp
    exact .inl ⟨hinside, .inl hinside⟩

/-- A source path that goes up and around, and a class whose name has dots in a row. -/
def winding : Program :=
  { files := #[{ path := "/../a/./b.kt" }]
    declarations := #[{ parent := .package "lib", origin := .externalStub
                        kind := .class { name := "..X" } }]
    classIndex := [("lib...X", ⟨0⟩)] }

theorem winding_leadsDown : winding.LeadsDown where
  files := by decide +kernel
  classes := by
    intro id name hname
    obtain ⟨chain, hchain, rfl⟩ := Option.map_eq_some_iff.mp hname
    have hzero : id = ⟨0⟩ := by
      rw [Program.classChain?, Program.walkLimit, Program.chainWithin] at hchain
      cases hdecl : winding.decl? id with
      | none =>
        rw [hdecl] at hchain
        cases hchain
      | some d =>
        obtain ⟨hlt, -⟩ := Array.getElem?_eq_some_iff.mp hdecl
        have hlt : id.index.toNat < 1 := hlt
        obtain ⟨index⟩ := id
        exact congrArg _ (UInt32.toNat_inj.mp (Nat.lt_one_iff.mp hlt))
    subst hzero
    have hname : some (qualify (winding.packageOf ⟨0⟩) ("$".intercalate chain)) = some "lib...X" :=
      hname.symm.trans (by decide +kernel)
    rw [Option.some.inj hname]
    rintro (h | h) <;> cases h

theorem run_contained_winding :
    let now : OnDisk Nat := pure 0
    let config : Config :=
      { invocationTrap := ⟨"inv"⟩, trapDir := ⟨"trap"⟩, sourceArchiveDir := ⟨"src"⟩
        checkTrapIdentical := false, exitAfterExtraction := false, compilationStartMs := none
        diagnosticLimit := 0 }
    let k : Disk := .ofFolder ["home"]
    (∀ k, (now k).2 = k) ∧ winding.LeadsDown ∧
      config.trapPlace k.here "/../a/./b.kt" = ["home", "trap", "a", "b.kt.trap"] ∧
      Below ["home", "trap"] (config.trapPlace k.here "/../a/./b.kt") ∧
      Disk.Spares (fun id => id < k.nextFile ∧ k.entry? ["home", "inv"] ≠ some (.file id))
        (config.Inside k.here)
        (fun location => config.Inside k.here location ∨ location = ["home", "inv"]) k
        (config.run winding now k).2 := by
  intro now config k
  have hnow : ∀ k, (now k).2 = k := fun _ => rfl
  have hinvocation : config.invocationTrap.locationFrom k.here = ["home", "inv"] := by
    decide +kernel
  have htraps : config.trapDir.locationFrom k.here = ["home", "trap"] := by decide +kernel
  obtain ⟨hfiles, -, hspares⟩ := @run_contained config winding now hnow winding_leadsDown k
  rw [hinvocation] at hspares
  rw [htraps] at hfiles
  have hbelow := (hfiles { path := "/../a/./b.kt" } (by simp [winding])).1
  exact ⟨hnow, winding_leadsDown, by decide +kernel, hbelow, hspares⟩

end Config

end IrFacts
