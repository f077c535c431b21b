import IrFacts.Proofs.Json.Printable
import IrFacts.Proofs.Output.Freshness

/-!
# What a fingerprint covers

The fingerprint of a class is taken of its name and of what is written about
the class and its members. Parameters, accessors and supertypes stand in
declarations of their own, which do not count. So a trap is kept although one
of these has changed, and then it is not the trap that would be written.
-/

set_option autoImplicit false

namespace IrFacts

namespace Program

/-! ## Digested bytes -/

/-- What is written about the members of a class, as far as they are declared. -/
def memberTexts (p : Program) (id : DeclId) : List String :=
  match p.class? id with
  | none => []
  | some c => c.members.filterMap fun member => (p.decl? member).map (·.encode.render)

/-- The same is written about two classes and about their members, whatever these
refer to. -/
def WrittenAlike (p q : Program) (a b : DeclId) : Prop :=
  (p.decl? a).map (·.encode.render) = (q.decl? b).map (·.encode.render) ∧
    p.memberTexts a = q.memberTexts b

instance (p q : Program) (a b : DeclId) : Decidable (WrittenAlike p q a b) :=
  inferInstanceAs (Decidable (_ ∧ _))

variable {p q : Program} {a b : DeclId} {c e : Declaration}

theorem memberBytes_eq (p : Program) (id : DeclId) :
    p.memberBytes id = (p.memberTexts id).flatMap fun text => 0 :: bytesOf text := by
  unfold memberBytes memberTexts
  cases p.class? id with
  | none => rfl
  | some c =>
    dsimp only
    induction c.members with
    | nil => rfl
    | cons member rest ih =>
      rw [List.flatMap_cons, ih, List.filterMap_cons]
      cases p.decl? member <;> rfl

theorem flatMap_cons_eq {α : Type} (sep : α) (first : List α) (rest : List (List α)) :
    first ++ rest.flatMap (sep :: ·) = [sep].intercalate (first :: rest) := by
  induction rest generalizing first with
  | nil => simp
  | cons next rest ih =>
    rw [List.flatMap_cons, List.intercalate_cons_of_ne_nil (List.cons_ne_nil _ _), ← ih]
    simp

theorem fingerprintBytes_eq (p : Program) (id : DeclId) (d : Declaration) :
    p.fingerprintBytes id d = bytesOf ((p.binaryName? id).getD "") ++
      0 :: [0].intercalate ((d.encode.render :: p.memberTexts id).map bytesOf) := by
  rw [fingerprintBytes, memberBytes_eq, List.map_cons, ← flatMap_cons_eq, List.flatMap_map,
    List.append_assoc, List.cons_append]
  rfl

theorem zero_notMem_written {text : String} (h : Json.Printable text) : 0 ∉ bytesOf text :=
  zero_notMem_bytesOf fun hzero => absurd (h _ hzero) (by decide)

theorem printable_memberTexts (p : Program) (id : DeclId) :
    ∀ text ∈ p.memberTexts id, Json.Printable text := by
  intro text htext
  unfold memberTexts at htext
  split at htext
  · cases htext
  · obtain ⟨member, -, hmember⟩ := List.mem_filterMap.mp htext
    obtain ⟨d, -, rfl⟩ := Option.map_eq_some_iff.mp hmember
    exact d.encode.printable_render

theorem fingerprintBytes_eq_iff (hname : p.binaryName? a = q.binaryName? b)
    (ha : p.decl? a = some c) (hb : q.decl? b = some e) :
    p.fingerprintBytes a c = q.fingerprintBytes b e ↔ WrittenAlike p q a b := by
  have hsplit (p : Program) (id : DeclId) (d : Declaration) :
      ([0].intercalate ((d.encode.render :: p.memberTexts id).map bytesOf)).splitOn 0 =
        (d.encode.render :: p.memberTexts id).map bytesOf := by
    refine List.splitOn_intercalate 0 (fun bytes hbytes => ?_) (by simp)
    obtain ⟨text, htext, rfl⟩ := List.mem_map.mp hbytes
    rcases List.mem_cons.mp htext with rfl | htext
    · exact zero_notMem_written d.encode.printable_render
    · exact zero_notMem_written (p.printable_memberTexts id text htext)
  rw [fingerprintBytes_eq, fingerprintBytes_eq, hname, WrittenAlike, ha, hb]
  simp only [List.append_cancel_left_eq, List.cons.injEq, true_and, Option.map_some,
    Option.some.injEq]
  constructor
  · intro h
    have htexts := hsplit p a c
    rw [h, hsplit q b e] at htexts
    have htexts := (List.map_inj_right fun _ _ => bytesOf_inj).mp htexts.symm
    exact List.cons.inj htexts
  · rintro ⟨hdecl, hmembers⟩
    rw [hdecl, hmembers]

/-- The digests of the two classes do not collide. -/
def NoCollision (p q : Program) (a b : DeclId) : Prop :=
  ∀ c e, p.decl? a = some c → q.decl? b = some e →
    Sha256.hexDigest (p.fingerprintBytes a c) = Sha256.hexDigest (q.fingerprintBytes b e) →
      p.fingerprintBytes a c = q.fingerprintBytes b e

end Program

namespace ClassTrap

open IrFacts.Task

variable {d : Destination} {p q : Program} {a b : DeclId} {t u : ClassTrap}
variable {touched : Location → Prop} {g g' : Progress} {k k' l : Disk}

/-! ## Traps that are kept -/

theorem exists_ofClass {name : String} {c : Declaration} (hname : p.binaryName? a = some name)
    (hdecl : p.decl? a = some c) : ∃ t, ofClass d p a = .ok t := by
  unfold ofClass Program.fingerprint
  rw [hname, hdecl]
  exact ⟨_, rfl⟩

/-- Classes of one name have their files in the same places. -/
theorem paths_of_binaryName (hname : p.binaryName? a = q.binaryName? b)
    (ht : ofClass d p a = .ok t) (hu : ofClass d q b = .ok u) :
    t.trap = u.trap ∧ t.metadata = u.metadata := by
  obtain ⟨name, -, hname₁, -, -, -, htrap, -, hmeta⟩ := ofClass_ok ht
  obtain ⟨name', -, hname₂, -, -, -, htrap', -, hmeta'⟩ := ofClass_ok hu
  obtain rfl : name = name' := Option.some.inj (hname₁.symm.trans (hname.trans hname₂))
  rw [hmeta, hmeta', htrap, htrap']
  exact ⟨rfl, rfl⟩

/-- Fingerprints agree just when the same is written about class and members. -/
theorem fingerprint_eq_iff (hname : p.binaryName? a = q.binaryName? b)
    (hfree : p.NoCollision q a b) (ht : ofClass d p a = .ok t) (hu : ofClass d q b = .ok u) :
    t.fingerprint = u.fingerprint ↔ p.WrittenAlike q a b := by
  obtain ⟨-, c, -, ha, -, hdigest, -⟩ := ofClass_ok ht
  obtain ⟨-, e, -, hb, -, hdigest', -⟩ := ofClass_ok hu
  rw [← Program.fingerprintBytes_eq_iff hname ha hb, hdigest, hdigest']
  exact ⟨hfree c e ha hb, congrArg _⟩

/-- Metadata that were written for a class vouch for another one of its name just when
the fingerprints agree. -/
theorem current_iff_of_vouched (hname : p.binaryName? a = q.binaryName? b)
    (ht : ofClass d p a = .ok t) (hu : ofClass d q b = .ok u) (hv : t.Vouched k) :
    u.Current k ↔ t.fingerprint = u.fingerprint := by
  obtain ⟨-, hmeta⟩ := paths_of_binaryName hname ht hu
  have hplace : t.place k.here = u.place k.here := congrArg (·.locationFrom k.here) hmeta
  constructor
  · rintro ⟨-, file, text, hentry, htext, hvouches⟩
    obtain ⟨-, file', hentry', -, hcontents⟩ := hv
    obtain ⟨-, c, -, -, -, hdigest, -⟩ := ofClass_ok ht
    rw [hplace, hentry] at hentry'
    cases hentry'
    rw [hcontents, fromUTF8?_toUTF8] at htext
    cases htext
    rw [hdigest] at hvouches ⊢
    exact fingerprint_of_vouches hvouches
  · intro hsame
    obtain ⟨hclean, file, text, hentry, htext, hvouches⟩ := hv.current ht
    exact ⟨hmeta ▸ hclean, file, text, hplace ▸ hentry, htext, hsame ▸ hvouches⟩

end ClassTrap

namespace Destination

open IrFacts.Task

variable {d : Destination} {p q : Program} {a b : DeclId} {t u : ClassTrap}
variable {touched : Location → Prop} {g g' : Progress} {k k' l : Disk}

theorem extractClass_writes (hterm : d.Terminates p) (ht : ClassTrap.ofClass d p a = .ok t)
    (hk : k.Issued) (hu : k.Unlinked) :
    Yields (d.extractClass p a) g k fun written _ k' => written = true → ∃ s file,
      Extract.Ends p (t.session d g) (t.extraction p) () s ∧
        k'.entry? (t.trap.locationFrom k'.here) = some (.file file) ∧
        k'.contentsOf file = s.file.writer.text.toUTF8 := by
  refine yields_extractClass ht (fun k₁ hframe ids hids => ?_) fun _ _ _ => nofun
  have hextract : Bounded p.Declares k₁.here (t.Own k₁.here) (t.extract d p : Task OnDisk _) :=
    ClassTrap.bounded_extract hterm ht (ClassTrap.filesIn_own ht)
  have hframe₂ := hextract.yields rfl ids hids
  obtain ⟨s, file, hs, hfile, hcontents⟩ := ClassTrap.extract_writes ids hids
  intro u hcommit _
  obtain ⟨hentry', hsame⟩ := ClassTrap.commit_keeps ht ids (Disk.fileAt_ok hfile) u hcommit
  exact ⟨s, file, hs, hentry', (hsame (hframe₂.issued (hframe.issued hk))
    (hframe₂.unlinked (hframe.issued hk) (hframe.unlinked hk hu))).trans hcontents⟩

/-- A class was written, and then the program has changed while its files were left
alone. Its metadata vouch for the class of the same name in the new program just when
the same is written about class and members there. When they do, the trap is
kept, with the text that the class had in the old program. -/
theorem kept_trap (hterm : d.Terminates p) (hk : LeftBehind k)
    (hname : p.binaryName? a = q.binaryName? b) (hfree : p.NoCollision q a b)
    (ht : ClassTrap.ofClass d p a = .ok t) (hu : ClassTrap.ofClass d q b = .ok u)
    (hwritten : (d.extractClass p a : Task OnDisk _).run.run g k = ((.ok true, g'), k'))
    (hframe : Disk.Frame touched k' l) (hplace : ¬touched (t.place k'.here))
    (htrap : ¬touched (t.trap.locationFrom k'.here)) :
    (u.Current l ↔ p.WrittenAlike q a b) ∧
      ∀ h, Yields (ClassTrap.plan d q b) h l fun plan _ l' => plan = .upToDate →
        p.WrittenAlike q a b ∧ ∃ s file, Extract.Ends p (t.session d g) (t.extraction p) () s ∧
          l'.entry? (u.trap.locationFrom l'.here) = some (.file file) ∧
          l'.contentsOf file = s.file.writer.text.toUTF8 := by
  obtain ⟨hissued, hunlinked⟩ := sound_of_extractClass hterm hwritten hk.sound
  have hvouched := extractClass_yields hterm ht hk.sound.1 (g := g) true (by rw [hwritten])
  have hwrites := extractClass_writes hterm ht hk.sound.1 hk.sound.2 (g := g) true
    (by rw [hwritten])
  rw [hwritten] at hvouched hwrites
  have hcurrent : u.Current l ↔ p.WrittenAlike q a b :=
    (ClassTrap.current_iff_of_vouched hname ht hu
      (ClassTrap.Vouched.frame hvouched hissued hframe hplace)).trans
      (ClassTrap.fingerprint_eq_iff hname hfree ht hu)
  refine ⟨hcurrent, fun h plan hdone hplan => ?_⟩
  obtain ⟨-, hwrite | ⟨-, ⟨-, hfresh⟩, hnothing⟩⟩ := ClassTrap.plan_yields hu plan hdone
  · cases hwrite.symm.trans hplan
  obtain ⟨s, file, hs, hentry, hcontents⟩ := hwrites rfl
  have hentry' := (hframe.file htrap).mpr hentry
  have hlu := hframe.unlinked hissued hunlinked
  refine ⟨hcurrent.mp hfresh, s, file, hs, ?_, ?_⟩
  · rw [hnothing.here, hframe.here, ← (ClassTrap.paths_of_binaryName hname ht hu).1]
    exact (hnothing.file not_false).mpr hentry'
  · rw [hnothing.contents (hframe.issued hissued) _ file not_false (hlu _) hentry',
      hframe.contents hissued _ file htrap (hunlinked _) hentry, hcontents]

/-! ## A parameter that has changed -/

/-- `class A { fun f(x: A): A }` from outside, or with `x: A?` there. -/
def taking (nullable : Bool) : Program :=
  { files := #[]
    declarations :=
      #[{ parent := .package "lib", origin := .externalStub
          kind := .class { name := "A", members := [⟨1⟩] } },
        { parent := .decl ⟨0⟩, origin := .externalStub
          kind := .function
            { name := "f", valueParameters := [⟨2⟩], returnType := .ofClass ⟨0⟩ [] } },
        { parent := .decl ⟨1⟩, origin := .externalStub
          kind := .valueParameter
            { name := "x", index := 0, type := .simple ⟨.ofClass ⟨0⟩, nullable, [], none⟩ } }]
    classIndex := [("lib.A", ⟨0⟩)] }

/-- The text of the trap of a class, if it is one. -/
def trapText? (d : Destination) (p : Program) (id : DeclId) (g : Progress) : Option String :=
  match ClassTrap.ofClass d p id with
  | .ok t => (t.extraction p p (t.session d g)).toOption.map fun r => r.2.file.writer.text
  | .error _ => none

theorem trapText?_of_ends {s : Session} (ht : ClassTrap.ofClass d p a = .ok t)
    (hs : Extract.Ends p (t.session d g) (t.extraction p) () s) :
    d.trapText? p a g = some s.file.writer.text := by
  unfold trapText?
  rw [ht]
  dsimp only
  rw [show t.extraction p p (t.session d g) = .ok ((), s) from hs]
  rfl

theorem taking_terminates (nullable : Bool) :
    Destination.Terminates ⟨⟨"trap"⟩, "inv"⟩ (taking nullable) := by
  intro id t ht
  obtain ⟨-, c, -, hdecl, -⟩ := ClassTrap.ofClass_ok ht
  obtain ⟨hlt, -⟩ := Array.getElem?_eq_some_iff.mp hdecl
  have hlt : id.index.toNat < 3 := hlt
  obtain ⟨index⟩ := id
  have hindex : index = 0 ∨ index = 1 ∨ index = 2 := by
    rw [← UInt32.toNat_inj, ← UInt32.toNat_inj, ← UInt32.toNat_inj]
    change index.toNat = 0 ∨ index.toNat = 1 ∨ index.toNat = 2
    change index.toNat < 3 at hlt
    omega
  rcases hindex with rfl | rfl | rfl <;> refine ends_of_endsAt ?_ ht <;> cases nullable <;>
    decide +kernel

set_option maxRecDepth 100000 in
/-- The trap of `A` is written, and then the parameter becomes nullable. The metadata vouch for the
class as it is now, but the trap that would be written now has another text. -/
theorem kept_trap_nullable :
    let d : Destination := ⟨⟨"trap"⟩, "inv"⟩
    let p := taking false
    let q := taking true
    let g : Progress := { counter := { limit := 0 } }
    let k : Disk := .ofFolder ["home"]
    d.Terminates p ∧ LeftBehind k ∧ p.binaryName? ⟨0⟩ = q.binaryName? ⟨0⟩ ∧
    p.NoCollision q ⟨0⟩ ⟨0⟩ ∧ p.WrittenAlike q ⟨0⟩ ⟨0⟩ ∧
    ∃ t u g' k', ClassTrap.ofClass d p ⟨0⟩ = .ok t ∧ ClassTrap.ofClass d q ⟨0⟩ = .ok u ∧
      (d.extractClass p ⟨0⟩ : Task OnDisk _).run.run g k = ((.ok true, g'), k') ∧
      t.fingerprint = u.fingerprint ∧ u.Current k' ∧
      (∀ h, Yields (ClassTrap.plan d q ⟨0⟩) h k' fun plan _ l' => plan = .upToDate →
        p.WrittenAlike q ⟨0⟩ ⟨0⟩ ∧ ∃ s file,
          Extract.Ends p (t.session d g) (t.extraction p) () s ∧
          l'.entry? (u.trap.locationFrom l'.here) = some (.file file) ∧
          l'.contentsOf file = s.file.writer.text.toUTF8) ∧
      ∀ s s', Extract.Ends p (t.session d g) (t.extraction p) () s →
        Extract.Ends q (u.session d g) (u.extraction q) () s' →
          s.file.writer.text ≠ s'.file.writer.text := by
  intro d p q g k
  have hk : LeftBehind k := .blank (Disk.entry?_ofFolder _)
  have hname : p.binaryName? ⟨0⟩ = q.binaryName? ⟨0⟩ := by decide +kernel
  have halike : p.WrittenAlike q ⟨0⟩ ⟨0⟩ := by decide +kernel
  have hfree : p.NoCollision q ⟨0⟩ ⟨0⟩ := fun c e hc he _ =>
    (Program.fingerprintBytes_eq_iff hname hc he).mpr halike
  have hclass (nullable : Bool) : ∃ t, ClassTrap.ofClass d (taking nullable) ⟨0⟩ = .ok t :=
    ClassTrap.exists_ofClass (show (taking nullable).binaryName? ⟨0⟩ = some "lib.A" by
      cases nullable <;> decide +kernel) rfl
  obtain ⟨t, ht⟩ := hclass false
  obtain ⟨u, hu⟩ := hclass true
  obtain ⟨g', k', hrun⟩ : ∃ g' k',
      (d.extractClass p ⟨0⟩ : Task OnDisk _).run.run g k = ((.ok true, g'), k') :=
    run_of_toOption (by decide +kernel)
  obtain ⟨hcurrent, hkept⟩ := kept_trap (taking_terminates false) hk hname hfree ht hu hrun
    (.refl (fun _ => False) k') not_false not_false
  have hdiffer : d.trapText? p ⟨0⟩ g ≠ d.trapText? q ⟨0⟩ g := by decide +kernel
  refine ⟨taking_terminates false, hk, hname, hfree, halike, t, u, g', k', ht, hu, hrun,
    (ClassTrap.fingerprint_eq_iff hname hfree ht hu).mpr halike, hcurrent.mpr halike, hkept, ?_⟩
  intro s s' hs hs' hsame
  exact hdiffer (by rw [trapText?_of_ends ht hs, trapText?_of_ends hu hs', hsame])

end Destination

end IrFacts
