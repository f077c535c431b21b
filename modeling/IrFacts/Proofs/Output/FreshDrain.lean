import IrFacts.Proofs.Output.SecondDrain

/-!
# What a drain leaves up to date

A class whose trap is up to date is not extracted, so that what it refers to is
not scheduled. Hence all classes that can be reached are up to date after a
drain only if those with current metadata referred to such classes before.
-/

set_option autoImplicit false

namespace IrFacts

namespace Destination

open IrFacts.Task

variable {d : Destination} {p : Program} {id : DeclId} {g g' : Progress} {k k' : Disk}

/-- After a drain in which no class failed, all classes that it took are up to
date: the scheduled ones, and what those refer to that were extracted. The
metadata of other classes are what they were. So all classes that can be
reached are up to date if, before the drain, those with current metadata
referred to classes that were up to date only. -/
theorem drain_freshens (hterm : d.Terminates p) {ids : List DeclId}
    (hg : g.queue = .scheduling ids) (hk : LeftBehind k)
    (hplaces : d.DistinctPlaces p k.here (d.Reached p (· ∈ ids))) :
    ∃ s log g' k', (d.drain p : Task OnDisk _).run.run g k = ((.ok s, g'), k') ∧
      Drains d p g k log g' k' ∧ (s.failed = 0 →
        (∀ id ∈ ids, id ∈ log.ids) ∧
        (∀ id other, (id, .extracted) ∈ log → d.Refers p id other → other ∈ log.ids) ∧
        (∀ id, (id, .upToDate) ∈ log → d.Current p id k) ∧
        (∀ id ∈ log.ids, d.Fresh p id k') ∧
        (∀ id, d.Reached p (· ∈ ids) id → id ∉ log.ids →
          (d.Current p id k' ↔ d.Current p id k)) ∧
        ((∀ id other, d.Reached p (· ∈ ids) id → d.Current p id k → d.Refers p id other →
            d.Fresh p other k) →
          ∀ id, d.Reached p (· ∈ ids) id → d.Fresh p id k')) := by
  obtain ⟨hissued, hunlinked⟩ := hk.sound
  obtain ⟨s, log, g', k', hrun, hdrains, hcounts, hsound, hall, hinitial⟩ := drain_run hterm hg k
  refine ⟨s, log, g', k', hrun, hdrains, fun hfailed => ?_⟩
  have hok : ∀ e ∈ log, e.2 ≠ .failed := fun e he =>
    DrainLog.ne_failed_of_tally (by rw [← hfailed, hcounts.failed, Nat.zero_add]) he
  have hwatch : Watch d p (d.Reached p (· ∈ ids)) k log g' k' := by
    refine hdrains.keeps [] (watch_invariant hterm hissued hunlinked hplaces
      fun id other h hrefers => .referred h hrefers) hsound (List.nil_subset _)
      (fun _ _ => List.not_mem_nil) (fun _ => watch_nil hissued hunlinked fun id hid => ?_) hok
    exact .scheduled (((ClassQueue.scheduling_spec ids).2.2 id).mp (hg ▸ hid))
  have hclosed (id other : DeclId) (hid : (id, .extracted) ∈ log) (hrefers : d.Refers p id other) :
      other ∈ log.ids := hall.mem_iff.mpr (hwatch.closed id other hid hrefers)
  have hreached : ∀ other ∈ log.ids, d.Reached p (· ∈ ids) other :=
    fun other hother => hwatch.reached other (hwatch.accepted hother)
  refine ⟨hinitial, hclosed, hwatch.current, hwatch.fresh,
    fun id hid hnew => hwatch.current_iff hissued hunlinked hplaces hid hnew,
    fun hbefore id hid => ?_⟩
  have hknown : id ∈ log.ids ∨ d.Fresh p id k := by
    induction hid with
    | scheduled h => exact .inl (hinitial _ h)
    | @referred id other h hrefers ih =>
      rcases ih with hid | ⟨t, ht, -, hcurrent⟩
      · obtain ⟨⟨a, fate⟩, he, rfl⟩ := List.mem_map.mp hid
        cases fate with
        | extracted => exact .inl (hclosed _ other he hrefers)
        | upToDate => exact .inr (hbefore _ other h (hwatch.current _ he) hrefers)
        | failed => exact absurd rfl (hok _ he)
      · exact .inr (hbefore id other h ⟨t, ht, hcurrent⟩ hrefers)
  by_cases hlog : id ∈ log.ids
  · exact hwatch.fresh id hlog
  · obtain ⟨t, ht, hfresh⟩ := hknown.resolve_left hlog
    obtain ⟨hplace, htrap⟩ := not_touched hplaces ht hid hreached hlog
    exact ⟨t, ht, hfresh.frame hissued hunlinked hwatch.frame htrap hplace⟩

/-! ## A third interface -/

/-- A third interface extends one of the two that extend each other. -/
def extendedPair : Program :=
  { ClassTrap.mutualPair with
    declarations := ClassTrap.mutualPair.declarations.push
      { parent := .package "lib", origin := .externalStub
        kind := .class { name := "C", kind := .interface, superTypes := [.ofClass ⟨0⟩ []] } }
    classIndex := ClassTrap.mutualPair.classIndex ++ [("lib.C", ⟨2⟩)] }

theorem extendedPair_cases {id : DeclId} {c : Declaration} (h : extendedPair.decl? id = some c) :
    id = ⟨0⟩ ∨ id = ⟨1⟩ ∨ id = ⟨2⟩ := by
  obtain ⟨hlt, -⟩ := Array.getElem?_eq_some_iff.mp h
  obtain ⟨index⟩ := id
  have hlt : index.toNat < 3 := hlt
  simp only [DeclId.mk.injEq, ← UInt32.toNat_inj, UInt32.reduceToNat]
  omega

theorem extendedPair_named {id : DeclId} {name : String}
    (h : extendedPair.binaryName? id = some name) :
    id = ⟨0⟩ ∧ name = "lib.A" ∨ id = ⟨1⟩ ∧ name = "lib.B" ∨ id = ⟨2⟩ ∧ name = "lib.C" := by
  have hfirst : extendedPair.binaryName? ⟨0⟩ = some "lib.A" := by decide +kernel
  have hsecond : extendedPair.binaryName? ⟨1⟩ = some "lib.B" := by decide +kernel
  have hthird : extendedPair.binaryName? ⟨2⟩ = some "lib.C" := by decide +kernel
  cases hdecl : extendedPair.decl? id with
  | some c =>
    rcases extendedPair_cases hdecl with rfl | rfl | rfl
    · exact .inl ⟨rfl, Option.some.inj (h.symm.trans hfirst)⟩
    · exact .inr (.inl ⟨rfl, Option.some.inj (h.symm.trans hsecond)⟩)
    · exact .inr (.inr ⟨rfl, Option.some.inj (h.symm.trans hthird)⟩)
  | none =>
    rw [Program.binaryName?, Program.classChain?, Program.walkLimit, Program.chainWithin,
      hdecl] at h
    cases h

theorem extendedPair_distinctPlaces (d : Destination) (here : Location) (ids : DeclId → Prop) :
    d.DistinctPlaces extendedPair here ids := by
  refine distinctPlaces_of_distinctNames (fun a b name _ _ ha hb => ?_)
    (fun id name _ hname => ?_) here
  · have ha := extendedPair_named ha
    have hb := extendedPair_named hb
    grind
  · rcases extendedPair_named hname with ⟨-, rfl⟩ | ⟨-, rfl⟩ | ⟨-, rfl⟩
    · exact ⟨by decide, by decide⟩
    · exact ⟨by decide, by decide⟩
    · exact ⟨by decide, by decide⟩

/-- The classes that are scheduled while a class is extracted, if the extraction ends. -/
def referencesAt (d : Destination) (p : Program) (id : DeclId) : Option (List DeclId) :=
  match ClassTrap.ofClass d p id with
  | .error _ => none
  | .ok t =>
    match t.extraction p p (t.session d {}) with
    | .error _ => none
    | .ok (_, s) => s.dependencies

theorem refers_of_referencesAt {ids : List DeclId} (h : d.referencesAt p id = some ids) :
    (∀ t, ClassTrap.ofClass d p id = .ok t →
      ∃ s, Extract.Ends p (t.session d {}) (t.extraction p) () s) ∧
    ∀ other, d.Refers p id other ↔ other ∈ ids := by
  unfold referencesAt at h
  split at h
  · cases h
  · next t ht =>
    split at h
    · cases h
    · next s hends =>
      constructor
      · intro u hu
        cases ht.symm.trans hu
        exact ⟨s, hends⟩
      · refine fun other => ⟨?_, fun hother => ⟨t, ht, s, ids, hends, h, hother⟩⟩
        rintro ⟨u, hu, s', others, hends', hothers, hother⟩
        cases ht.symm.trans hu
        cases hends.symm.trans hends'
        cases h.symm.trans hothers
        exact hother

theorem mutualPair_references :
    (⟨⟨"trap"⟩, "inv"⟩ : Destination).referencesAt ClassTrap.mutualPair ⟨0⟩ = some [⟨1⟩] := by
  decide +kernel

theorem extendedPair_references :
    let d : Destination := ⟨⟨"trap"⟩, "inv"⟩
    d.referencesAt extendedPair ⟨0⟩ = some [⟨1⟩] ∧ d.referencesAt extendedPair ⟨1⟩ = some [⟨0⟩] ∧
      d.referencesAt extendedPair ⟨2⟩ = some [⟨0⟩] := by
  decide +kernel

set_option maxRecDepth 100000 in
theorem extendedPair_extracts {r : Except ExtractError DrainSummary} {g₁ : Progress} {k₁ : Disk}
    (hrun : ((⟨⟨"trap"⟩, "inv"⟩ : Destination).drain ClassTrap.mutualPair :
      Task OnDisk _).run.run { queue := .scheduling [⟨0⟩] } (.ofFolder ["home"]) =
      ((r, g₁), k₁)) :
    ∃ g₂ k₂, ((⟨⟨"trap"⟩, "inv"⟩ : Destination).drainClass extendedPair ⟨0, 1, 0, 1⟩ ⟨2⟩ :
        Task OnDisk _).run.run (taken { queue := .scheduling [⟨0⟩, ⟨2⟩] }) k₁.counted =
        ((.ok ⟨1, 1, 0, 1⟩, g₂), k₂) ∧
      g₂.queue.waiting = [] := by
  have hk₁ : (((⟨⟨"trap"⟩, "inv"⟩ : Destination).drain ClassTrap.mutualPair :
      Task OnDisk _).run.run { queue := .scheduling [⟨0⟩] } (.ofFolder ["home"])).2 = k₁ :=
    congrArg Prod.snd hrun
  refine run_of_summary (f := fun g => g.queue.waiting) ?_
  rw [← hk₁]
  decide +kernel

/-- The class that is up to date is taken first, and then the new one is extracted. -/
theorem extendedPair_drained {r : Except ExtractError DrainSummary} {g₁ : Progress} {k₁ : Disk}
    (hrun : ((⟨⟨"trap"⟩, "inv"⟩ : Destination).drain ClassTrap.mutualPair :
      Task OnDisk _).run.run { queue := .scheduling [⟨0⟩] } (.ofFolder ["home"]) =
      ((r, g₁), k₁))
    (hkept : (⟨⟨"trap"⟩, "inv"⟩ : Destination).Kept extendedPair ⟨0⟩ k₁) (hk₁ : k₁.Willing) :
    ∃ g₂ k₂, ((⟨⟨"trap"⟩, "inv"⟩ : Destination).drain extendedPair : Task OnDisk _).run.run
      { queue := .scheduling [⟨0⟩, ⟨2⟩] } k₁ = ((.ok ⟨1, 1, 0, 1⟩, g₂), k₂) := by
  obtain ⟨g₂, k₂, hthird, hdone⟩ := extendedPair_extracts hrun
  refine ⟨g₂, k₂, drain_of_batch (by decide) ?_ hdone⟩
  rw [show (ClassQueue.scheduling [⟨0⟩, ⟨2⟩]).batch = [⟨0⟩, ⟨2⟩] by decide, List.foldlM_cons,
    run_bind, drainClass_of_kept hkept hk₁]
  dsimp only
  rw [List.foldlM_cons, run_bind, hthird]
  rfl

theorem extendedPair_references_of_ofClass {t : ClassTrap}
    (ht : ClassTrap.ofClass ⟨⟨"trap"⟩, "inv"⟩ extendedPair id = .ok t) :
    ∃ other, (other = ⟨0⟩ ∨ other = ⟨1⟩) ∧
      (⟨⟨"trap"⟩, "inv"⟩ : Destination).referencesAt extendedPair id = some [other] := by
  obtain ⟨hfirst, hsecond, hthird⟩ := extendedPair_references
  obtain ⟨-, c, -, hdecl, -⟩ := ClassTrap.ofClass_ok ht
  rcases extendedPair_cases hdecl with rfl | rfl | rfl
  · exact ⟨⟨1⟩, .inr rfl, hfirst⟩
  · exact ⟨⟨0⟩, .inl rfl, hsecond⟩
  · exact ⟨⟨0⟩, .inl rfl, hthird⟩

theorem extendedPair_terminates : (⟨⟨"trap"⟩, "inv"⟩ : Destination).Terminates extendedPair := by
  intro id t ht
  obtain ⟨other, -, hids⟩ := extendedPair_references_of_ofClass ht
  exact (refers_of_referencesAt hids).1 t ht

/-- What one of the three refers to is one of the first two. -/
theorem extendedPair_refers {other : DeclId}
    (h : (⟨⟨"trap"⟩, "inv"⟩ : Destination).Refers extendedPair id other) :
    other = ⟨0⟩ ∨ other = ⟨1⟩ := by
  obtain ⟨t, ht, hrefers⟩ := h
  obtain ⟨first, hfirst, hids⟩ := extendedPair_references_of_ofClass ht
  obtain rfl := List.mem_singleton.mp (((refers_of_referencesAt hids).2 other).mp ⟨t, ht, hrefers⟩)
  exact hfirst

/-- On a disk without files one of two interfaces is drained, and both are up to date. Then there
is a third one, and it is drained together with the one that it extends. The trap of the latter is
current, and it refers to one that is up to date, so all three are up to date in the end. -/
theorem drain_freshens_mutualPair :
    let d : Destination := ⟨⟨"trap"⟩, "inv"⟩
    let g (ids : List DeclId) : Progress := { queue := .scheduling ids }
    let k : Disk := .ofFolder ["home"]
    LeftBehind k ∧ ∃ g₁ k₁,
      (d.drain ClassTrap.mutualPair : Task OnDisk _).run.run (g [⟨0⟩]) k =
        ((.ok ⟨2, 0, 0, 2⟩, g₁), k₁) ∧
      d.Terminates extendedPair ∧ LeftBehind k₁ ∧
      d.DistinctPlaces extendedPair k₁.here (d.Reached extendedPair (· ∈ [⟨0⟩, ⟨2⟩])) ∧
      d.Current extendedPair ⟨0⟩ k₁ ∧ d.Refers extendedPair ⟨0⟩ ⟨1⟩ ∧ ∃ log g₂ k₂,
        (d.drain extendedPair : Task OnDisk _).run.run (g [⟨0⟩, ⟨2⟩]) k₁ =
          ((.ok ⟨1, 1, 0, 1⟩, g₂), k₂) ∧
        Drains d extendedPair (g [⟨0⟩, ⟨2⟩]) k₁ log g₂ k₂ ∧
        ∀ id, d.Reached extendedPair (· ∈ [⟨0⟩, ⟨2⟩]) id → d.Fresh extendedPair id k₂ := by
  intro d g k
  have hblank : ∀ location id, k.entry? location ≠ some (.file id) := Disk.entry?_ofFolder _
  -- The first drain, which leaves both interfaces up to date.
  obtain ⟨s, log₁, g₁, k₁, hfirst, hdrains₁, hfresh₁⟩ :=
    drain_freshens mutualPair_terminates (show (g [⟨0⟩]).queue = .scheduling [⟨0⟩] from rfl)
      (.blank hblank) (mutualPair_distinctPlaces d k.here _)
  obtain ⟨_, _, hsummary, haccepted⟩ := mutualPair_drained
  cases hfirst.symm.trans hsummary
  have hleft : LeftBehind k₁ := .drained (.blank hblank) mutualPair_terminates rfl hfirst
  have hkept : d.Kept ClassTrap.mutualPair ⟨0⟩ k₁ :=
    keeps_of_drain (issued_ofFolder _) rfl (mutualPair_distinctTraps d _ _) hfirst rfl ⟨0⟩
      (haccepted ▸ by decide)
  obtain ⟨-, -, -, -, -, hall₁⟩ := hfresh₁ rfl
  have hpair : ∀ id, d.Reached ClassTrap.mutualPair (· ∈ [⟨0⟩]) id →
      d.Fresh ClassTrap.mutualPair id k₁ := by
    refine hall₁ ?_
    rintro id other - ⟨t, -, -, file, -, hentry, -⟩ -
    exact absurd hentry (hblank _ file)
  have hreached : d.Reached ClassTrap.mutualPair (· ∈ [⟨0⟩]) ⟨0⟩ := .scheduled (.head _)
  have hfirst₁ : d.Fresh extendedPair ⟨0⟩ k₁ := hpair ⟨0⟩ hreached
  have hsecond₁ : d.Fresh extendedPair ⟨1⟩ k₁ :=
    hpair ⟨1⟩ (.referred hreached
      (((refers_of_referencesAt mutualPair_references).2 _).mpr (.head _)))
  -- The second drain, which takes the class that is up to date before the new one.
  have hwilling : k₁.Willing := willing_of_drain (willing_ofFolder _) hfirst
  obtain ⟨g₂, k₂, hsecond⟩ := extendedPair_drained hfirst hkept hwilling
  obtain ⟨s, log, _, _, hrun, hdrains, hfresh⟩ := drain_freshens extendedPair_terminates
    (show (g [⟨0⟩, ⟨2⟩]).queue = .scheduling [⟨0⟩, ⟨2⟩] from rfl) hleft
    (extendedPair_distinctPlaces d k₁.here _)
  cases hrun.symm.trans hsecond
  obtain ⟨-, -, -, -, -, hall⟩ := hfresh rfl
  have hrefers : d.Refers extendedPair ⟨0⟩ ⟨1⟩ :=
    ((refers_of_referencesAt extendedPair_references.1).2 _).mpr (.head _)
  have ⟨t, ht, _, hcurrent⟩ := hfirst₁
  refine ⟨.blank hblank, g₁, k₁, hfirst, extendedPair_terminates, hleft,
    extendedPair_distinctPlaces d k₁.here _, ⟨t, ht, hcurrent⟩, hrefers, log, g₂, k₂, hsecond,
    hdrains, hall fun id other _ _ h => ?_⟩
  rcases extendedPair_refers h with rfl | rfl
  · exact hfirst₁
  · exact hsecond₁

end Destination

end IrFacts
