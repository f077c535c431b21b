import IrFacts.Proofs.Code.DeclarationRows
import IrFacts.Proofs.Types.InstanceFacts
import IrFacts.Proofs.Types.SameLabel

/-!
# Contexts are put back

While the instance of a class is extracted places are attributed to the file of the class, and in
a function code belongs to it. When a request has ended both are as they were. For the file this
holds in every session. For the function it is told by any account that the walk is accounted
for, as every walk that has passed its items is back where it began.
-/

set_option autoImplicit false

namespace IrFacts

/-- Places are attributed to the same file as before, and code to the same function. -/
structure Session.SameContext (s t : Session) : Prop where
  target : t.file.target = s.file.target
  function : t.currentFunction = s.currentFunction

namespace Request

open Extract

variable {p : Program} {s t u : Session} {r : Request} {typeFuel walkFuel : Nat}

theorem treads_rows (p : Program) (typeFuel walkFuel : Nat) :
    (Account.rows p).Treads (.whole p) (walk (projection typeFuel) walkFuel) :=
  Account.treads_walk
    ((Account.keeps_projection (Account.copes_rows p) typeFuel).follows fun _ _ _ _ => rfl) walkFuel

theorem passes_perform (hs : s.Tidy fun _ => False)
    (h : Ends p s (r.perform (walk (projection typeFuel) walkFuel)) () t) :
    s.SameContext t ∧ t.Tidy fun _ => False := by
  obtain ⟨items, hitems⟩ := Account.exists_walks (treads_rows p typeFuel walkFuel)
    (fun _ => nofun) ⟨s.currentFunction.isSome, []⟩ r
  obtain ⟨hpasses, -⟩ := hitems s rfl hs () t h
  exact ⟨⟨(grows_perform typeFuel walkFuel r s () t h).target, hpasses.function⟩, hpasses.tidy⟩

theorem passes_run {requests : List Request} (hs : s.Tidy fun _ => False)
    (h : Ends p s (run (walk (projection typeFuel) walkFuel) requests) () t) :
    s.SameContext t ∧ t.Tidy fun _ => False := by
  induction requests generalizing s with
  | nil =>
    obtain ⟨-, rfl⟩ := ends_pure.mp h
    exact ⟨⟨rfl, rfl⟩, hs⟩
  | cons r requests ih =>
    obtain ⟨_, middle, hr, hrest⟩ := ends_bind.mp h
    obtain ⟨hfirst, hmiddle⟩ := passes_perform hs hr
    obtain ⟨hlater, ht⟩ := ih hmiddle hrest
    exact ⟨⟨hlater.target.trans hfirst.target, hlater.function.trans hfirst.function⟩, ht⟩

/-- On a new file, after any requests, no request leaves the file or the function changed. -/
theorem context_put_back {w : Trap.Writer} (hw : w.labels.Faithful) {path : String}
    {lines : Option LineTable} (hs : s.file = .ofPath w path lines) (hlocals : s.locals = [])
    {before : List Request}
    (hbefore : Ends p s (run (walk (projection typeFuel) walkFuel) before) () t) :
    s.SameContext t ∧ ∀ r typeFuel walkFuel u,
      Ends p t (Request.perform (walk (projection typeFuel) walkFuel) r) () u →
        t.SameContext u := by
  obtain ⟨_, -, -, hopened⟩ := (Account.rows p).passes_ofPath hw hs hlocals
  obtain ⟨hsame, ht⟩ := passes_run hopened.tidy hbefore
  exact ⟨hsame, fun r typeFuel walkFuel u h => (passes_perform ht h).1⟩

/-- A function with a class of its own in it, which extends a class of another file. -/
def yard : Program :=
  let store : IrType := .ofClass ⟨0⟩ []
  let crates : IrType := .ofClass ⟨1⟩ [.projection .covariant store]
  { files := #[{ path := "a.kt", declarations := [⟨3⟩] },
      { path := "b.kt", declarations := [⟨0⟩, ⟨1⟩] }]
    declarations :=
      #[{ parent := .file ⟨1⟩, kind := .class { name := "Store", kind := .interface } },
        { parent := .file ⟨1⟩
          kind := .class { name := "Crate", typeParameters := [⟨2⟩], superTypes := [store] } },
        { parent := .decl ⟨1⟩, kind := .typeParameter { name := "T", index := 0 } },
        { parent := .file ⟨0⟩
          kind := .function { name := "pack", returnType := crates
                              body := some ⟨⟨0, 9⟩, [.declaration ⟨4⟩]⟩ } },
        { parent := .decl ⟨3⟩
          kind := .class { name := "Local", superTypes := [crates], members := [⟨5⟩] } },
        { parent := .decl ⟨4⟩, kind := .function { name := "open", returnType := crates } }]
    classIndex := [("Store", ⟨0⟩), ("Crate", ⟨1⟩)] }

/-- The function is extracted for a parent that does not exist, after a place was asked for. -/
theorem context_put_back_yard : ∃ t u,
    let s : Session :=
      { file := .source (.ofSink .unbounded) "a.kt" .single, counter := {}, queue := {} }
    let w := walk (projection 9) 9
    Ends yard s (run w [.place ⟨0, 1⟩]) () t ∧
    Ends yard t (Request.perform w (.operation (.function .placeholder ⟨3⟩))) () u ∧
    s.SameContext t ∧ t.SameContext u := by
  obtain ⟨_, u, h⟩ := ends_of_isOk (p := yard)
    (s := { file := .source (.ofSink .unbounded) "a.kt" .single, counter := {}, queue := {} })
    (m := do
      run (walk (projection 9) 9) [.place ⟨0, 1⟩]
      Request.perform (walk (projection 9) 9) (.operation (.function .placeholder ⟨3⟩)))
    (by decide +kernel)
  obtain ⟨_, t, hbefore, hlast⟩ := ends_bind.mp h
  have hnew : (Trap.Writer.ofSink .unbounded).labels.Faithful := LabelTable.faithful_empty
  obtain ⟨hsame, hrest⟩ := context_put_back hnew rfl rfl hbefore
  exact ⟨t, u, hbefore, hlast, hsame, hrest _ 9 9 u hlast⟩

end Request

end IrFacts
