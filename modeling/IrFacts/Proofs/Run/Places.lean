import IrFacts.Proofs.Run.Names

/-!
# Single actions keep to a scope

Facts, labels, files, places and problems: what an extraction is put together
from. A fact may be written in its place when the labels it mentions are known
there, and a key may be asked for when it is spelled there.
-/

set_option autoImplicit false

namespace IrFacts

namespace Scope

open Extract

variable {σ : Scope} {p : Program} {s t : Session} {α β : Type}

/-! ## Events -/

theorem leads_single {e : Event} (h : σ.Admits s e) (hs : ∀ id f, e ≠ .schedule id f)
    (ha : ∀ key id, e ≠ .lookup key (some id)) (ht : ∀ target, e ≠ .target target) :
    σ.Leads p s (e.step s) :=
  ⟨⟨[e], trace_single h hs ha⟩, Event.step_target e s ht⟩

theorem Sound.knows_find? (h : σ.Sound s) {key : String} {l : Label}
    (hk : s.table.find? key = some l) : σ.Knows s l := by
  obtain ⟨l₁, l₂, hs, -⟩ := List.lookup_eq_some_iff.mp hk
  exact h.bound (key, l) (by simp [hs])

theorem does_writeIn {r : String} {args : List Trap.Arg} (hr : σ.relation r)
    (hl : σ.KnowsAll s args) : σ.Does p s (write ⟨r, args⟩) Any := by
  intro _ u s' he
  rw [ends_write.mp he]
  exact ⟨leads_single ⟨hr, hl⟩ nofun nofun nofun, trivial⟩

theorem does_write {r : String} {args : List Trap.Arg} (hr : r ∉ Trap.codeRelations)
    (hl : σ.KnowsAll s args) : σ.Does p s (write ⟨r, args⟩) Any :=
  does_writeIn (σ.relation_of_notMem r hr) hl

theorem does_fresh : σ.Does p s fresh fun l t => σ.Knows t l := by
  intro hs l s' he
  obtain ⟨rfl, rfl⟩ := ends_fresh.mp he
  refine ⟨leads_single trivial nofun nofun nofun, Or.inr ⟨_, rfl, hs.base, ?_⟩⟩
  rw [Event.step_table]
  exact Nat.lt_succ_self _

theorem does_find? {key : String} :
    σ.Does p s (find? key) fun found t => ∀ l ∈ found, σ.Knows t l := by
  intro hs found s' he
  obtain ⟨rfl, rfl⟩ := ends_find?.mp he
  exact ⟨.refl, fun l hl => hs.knows_find? hl⟩

theorem does_lookup {key : String} (hk : σ.Spells s key) :
    σ.Does p s (onWriter (·.lookup key)) fun found t => σ.Knows t found.label := by
  intro hs found s' he
  obtain ⟨rfl, rfl⟩ := (ends_lookup none).mp he
  have hst : σ.Leads p s ((Event.lookup key none).step s) :=
    leads_single hk nofun nofun nofun
  refine ⟨hst, ?_⟩
  rw [Trap.Writer.lookup, LabelTable.lookup]
  cases hf : s.file.writer.labels.find? key with
  | some l => exact hst.knows (hs.knows_find? hf)
  | none =>
    refine Or.inr ⟨_, rfl, hs.base, ?_⟩
    rw [Event.step_table, Event.onTable, LabelTable.lookup, hf]
    exact Nat.lt_succ_self _

theorem does_labelWith {key : String} {define : Label → Extract Unit} (hk : σ.Spells s key)
    (hd : ∀ l t, σ.Leads p s t → σ.Knows t l → σ.Does p t (define l) Any) :
    σ.Does p s (labelWith key define) fun l t => σ.Knows t l := by
  apply does_bind (does_lookup hk)
  intro found t hst hl
  cases found with
  | existing l => exact does_pure hl
  | created l => exact does_bind (hd l t hst hl) fun _ u htu _ => does_pure (htu.knows hl)

theorem does_labelFor {key : String} (hk : σ.Spells s key) :
    σ.Does p s (labelFor key) fun l t => σ.Knows t l := by
  rw [labelFor_eq]
  exact does_labelWith hk fun _ _ _ _ => does_pure trivial

/-- Every report is an error, so the placeholder may be mentioned after it. -/
theorem does_reportAt {problem : Problem} {location : Label} (h : σ.Knows s location) :
    σ.Does p s (reportAt problem location) fun _ t => σ.errors ≤ t.counter.errors := by
  intro hs u s' he
  rw [ends_reportAt.mp he]
  refine ⟨leads_single h nofun nofun nofun, ?_⟩
  simp only [Event.step, Event.report_eq]
  exact hs.errors

/-! ## Branches -/

theorem does_ite {c : Prop} [Decidable c] {m n : Extract α} {Q : α → Session → Prop}
    (hm : c → σ.Does p s m Q) (hn : ¬ c → σ.Does p s n Q) :
    σ.Does p s (if c then m else n) Q := by
  split
  · next h => exact hm h
  · next h => exact hn h

theorem does_when {c : Prop} [Decidable c] {m : Extract Unit} (hm : c → σ.Does p s m Any) :
    σ.Does p s (if c then m else pure ()) Any :=
  does_ite hm fun _ => does_pure trivial

theorem does_ite_bind {c : Prop} [Decidable c] {m n : Extract α} {f : α → Extract β}
    {Q : α → Session → Prop} {R : β → Session → Prop} (hm : c → σ.Does p s m Q)
    (hn : ¬ c → σ.Does p s n Q) (hf : ∀ a t, σ.Leads p s t → Q a t → σ.Does p t (f a) R) :
    σ.Does p s (if c then m >>= f else n >>= f) R :=
  does_ite (fun h => does_bind (hm h) hf) fun h => does_bind (hn h) hf

theorem does_when_bind {c : Prop} [Decidable c] {m : Extract Unit} {f : Unit → Extract β}
    {R : β → Session → Prop} (hm : c → σ.Does p s m Any)
    (hf : ∀ t, σ.Leads p s t → σ.Does p t (f ()) R) :
    σ.Does p s (if c then m >>= f else f ()) R :=
  does_ite (fun h => does_bind (hm h) fun _ t hst _ => hf t hst) fun _ => hf s .refl

/-! ## Lists -/

theorem does_mapM {as : List α} {f : α → Extract β} {R : β → Session → Prop}
    (hR : ∀ b t u, σ.Leads p t u → R b t → R b u)
    (hf : ∀ a t, σ.Leads p s t → σ.Does p t (f a) R) :
    σ.Does p s (as.mapM f) fun bs t => ∀ b ∈ bs, R b t := by
  induction as generalizing s with
  | nil =>
    rw [List.mapM_nil]
    exact does_pure (by simp)
  | cons a as ih =>
    rw [List.mapM_cons]
    apply does_bind (hf a s .refl)
    intro b t hst hb
    apply does_bind (ih fun a u htu => hf a u (hst.trans htu))
    intro bs u htu hbs
    apply does_pure
    intro c hc
    rcases List.mem_cons.mp hc with rfl | hc
    · exact hR _ _ _ htu hb
    · exact hbs c hc

theorem does_foldlM {as : List α} {f : β → α → Extract β} {R : β → Session → Prop} {b : β}
    (hf : ∀ b a t, σ.Leads p s t → R b t → σ.Does p t (f b a) R) (hb : R b s) :
    σ.Does p s (as.foldlM f b) R := by
  induction as generalizing s b with
  | nil => exact does_pure hb
  | cons a as ih =>
    rw [List.foldlM_cons]
    apply does_bind (hf b a s .refl hb)
    intro c t hst hc
    exact ih (fun b a u htu hu => hf b a u (hst.trans htu) hu) hc

/-! ## Files and places -/

theorem spells_regionKey {file : Label} (r : Trap.Region) (h : σ.Knows s file) :
    σ.Spells s (r.key file) := by
  have comma : σ.Spells s "," := spells_of_plain (by decide)
  have number (n : Nat) : σ.Spells s (toString n) := (letters_nat n).spells
  have start := (spells_of_plain (σ := σ) (s := s) (a := "loc,") (by decide)).append
    (spells_braced h)
  have first := (((start.append comma).append (number r.startLine.toNat)).append comma).append
    (number r.startColumn.toNat)
  exact (((first.append comma).append (number r.endLine.toNat)).append comma).append
    (number r.endColumn.toNat)

theorem does_locationIn {file : Label} (r : Trap.Region) (h : σ.Knows s file) :
    σ.Does p s (onFile (·.locationIn file r)) fun l t => σ.Knows t l := by
  rw [locationIn_eq]
  exact does_labelWith (spells_regionKey r h) fun l t hst hl =>
    does_write (by decide) ⟨hl, hst.knows h, trivial⟩

theorem does_wholeFile : σ.Does p s wholeFile fun l t => σ.Knows t l := by
  rw [wholeFile_eq]
  exact does_get fun hs => does_locationIn _ hs.target

theorem does_unknownLocation : σ.Does p s unknownLocation fun l t => σ.Knows t l := by
  rw [unknownLocation_eq, unknownFile_eq]
  refine does_bind (does_labelWith (spells_of_plain (by decide)) fun l t _ hl => ?_)
    fun file t _ hf => does_locationIn _ hf
  exact does_write (by decide) ⟨hl, trivial⟩

theorem does_location (span : Span) : σ.Does p s (location span) fun l t => σ.Knows t l := by
  rw [location_eq]
  apply does_get
  intro hs
  unfold placeIn
  split
  · exact does_locationIn _ hs.target
  · apply does_ite (fun _ => does_unknownLocation)
    intro _
    split
    · exact does_locationIn _ hs.target
    · exact does_throw

theorem does_locate {entity : Label} (span : Span) (h : σ.Knows s entity) :
    σ.Does p s (locate entity span) Any :=
  does_bind (does_location span) fun _ _ hst hl =>
    does_write (by decide) ⟨hst.knows h, hl, trivial⟩

theorem does_complaint (problem : Problem) :
    σ.Does p s (complain problem) fun _ t => σ.errors ≤ t.counter.errors :=
  does_bind does_unknownLocation fun _ _ _ hl => does_reportAt hl

theorem does_complaintAt (problem : Problem) (span : Span) :
    σ.Does p s (complainAt problem span) fun _ t => σ.errors ≤ t.counter.errors :=
  does_bind (does_location span) fun _ _ _ hl => does_reportAt hl

theorem does_complain (problem : Problem) : σ.Does p s (complain problem) Any :=
  (does_complaint problem).imp fun _ _ _ _ => trivial

theorem does_complainAt (problem : Problem) (span : Span) :
    σ.Does p s (complainAt problem span) Any :=
  (does_complaintAt problem span).imp fun _ _ _ _ => trivial

/-- What is complained of has the placeholder for a label. -/
theorem does_unresolved (problem : Problem) :
    σ.Does p s (do
      complain problem
      return Label.placeholder) fun l t => σ.Knows t l :=
  does_bind (does_complaint problem) fun _ _ _ h => does_pure (knows_placeholder h)

theorem does_enterFolders {child : Label} {folders : List Path} (h : σ.Knows s child)
    (hf : ∀ folder ∈ folders, σ.Letters folder.text) :
    σ.Does p s (onWriter fun w => ((), w.enterFolders child folders)) Any := by
  induction folders generalizing s child with
  | nil =>
    rw [enterFolders_nil]
    exact does_pure trivial
  | cons folder rest ih =>
    rw [enterFolders_cons]
    apply does_ite (fun _ => does_pure trivial)
    intro _
    have hkey : σ.Spells s (folder.text ++ ";folder") :=
      (hf folder (by simp)).spells.append (spells_of_plain (by decide))
    apply does_bind (does_lookup hkey)
    intro found t hst hl
    cases found with
    | existing l => exact does_write (by decide) ⟨hl, hst.knows h, trivial⟩
    | created l =>
      refine does_bind (does_write (by decide) ⟨hl, trivial⟩) fun _ u htu _ => ?_
      refine does_bind (does_write (by decide) ⟨htu.knows hl, htu.knows (hst.knows h), trivial⟩)
        fun _ v huv _ => ?_
      exact ih (huv.knows (htu.knows hl)) fun q hq => hf q (by simp [hq])

theorem does_fileLabel {text : String} {populate : Bool} (h : σ.Letters text) :
    σ.Does p s (onWriter (·.fileLabel text populate)) fun l t => σ.Knows t l := by
  rw [fileLabel_eq]
  apply does_labelWith (h.spells.append (spells_of_plain (by decide)))
  intro l t _ hl
  apply does_when
  intro _
  refine does_bind (does_write (by decide) ⟨hl, trivial⟩) fun _ u htu _ => ?_
  exact does_enterFolders (htu.knows hl) (letters_parents h)

theorem trace_retarget {path : String} {lines : Option LineTable} {populate : Bool}
    {saved : Trap.Target} (h : σ.Letters path) (hs : σ.Sound s)
    (he : Ends p s (onFile (·.retarget path lines populate)) saved t) :
    saved = s.file.target ∧ ∃ es, σ.Trace p s es t := by
  obtain ⟨rfl, label, t₀, hl, rfl⟩ := ends_retarget.mp he
  obtain ⟨⟨⟨es, hes⟩, -⟩, hlabel⟩ := does_fileLabel h hs _ _ hl
  have htarget : σ.Trace p t₀ [.target ⟨path, label, lines⟩] _ :=
    trace_single hlabel nofun nofun
  exact ⟨rfl, _, hes.append htarget⟩

/-- The target is exchanged in between, and is the same as before in the end. -/
theorem does_inFile {path : String} {lines : Option LineTable} {populate : Bool}
    {action : Extract α} {Q : α → Session → Prop} (h : σ.Letters path)
    (ha : ∀ t, s.Before t → σ.Does p t action Q) (hQ : ∀ a t u, t.Before u → Q a t → Q a u) :
    σ.Does p s (do
      let saved ← onFile (·.retarget path lines populate)
      let result ← action
      onFile fun file => ((), file.restore saved)
      return result) Q := by
  intro hs a s' he
  obtain ⟨saved, t, hr, he⟩ := ends_bind.mp he
  obtain ⟨b, u, hb, he⟩ := ends_bind.mp he
  obtain ⟨_, v, hv, he⟩ := ends_bind.mp he
  obtain ⟨rfl, rfl⟩ := ends_pure.mp he
  obtain rfl := ends_restore.mp hv
  obtain ⟨rfl, es, h₁⟩ := trace_retarget h hs hr
  obtain ⟨⟨⟨fs, h₂⟩, -⟩, hq⟩ := ha _ h₁.before (h₁.sound hs) _ _ hb
  have hback : σ.Knows u s.file.target.label := hs.target.later (h₁.append h₂).before
  have h₃ : σ.Trace p u [.target s.file.target] _ := trace_single hback nofun nofun
  exact ⟨⟨⟨_, (h₁.append h₂).append h₃⟩, rfl⟩, hQ _ _ _ h₃.before hq⟩

theorem does_inFileOf {id : DeclId} {populate : Bool} {action : Extract α}
    {Q : α → Session → Prop} (hp : σ.Allows p)
    (ha : ∀ t, s.Before t → σ.Does p t action Q) (hQ : ∀ a t u, t.Before u → Q a t → Q a u) :
    σ.Does p s (inFileOf id populate action) Q := by
  apply does_read
  dsimp only
  split
  · next entry he =>
    split at he
    · cases he
    · obtain ⟨file, -, hf⟩ := Option.bind_eq_some_iff.mp he
      exact does_inFile (hp.file hf _ (by simp [Program.fileNames])) ha hQ
  · exact does_inFile (letters_binaryPath hp id) ha hQ

end Scope

end IrFacts
