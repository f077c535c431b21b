import IrFacts.Proofs.Program.ClassIndex
import IrFacts.Proofs.Program.WalkLimits

/-!
# The symbol table

A document is a program if all that it refers to by number is there. The program
then is the document with the builtin classes that it lacks, and its index leads
from a name to the first class of that name.
-/

set_option autoImplicit false

namespace IrFacts

/-! ## References -/

/-- What one part of a document names another part by. -/
inductive Link where
  | decl (id : DeclId)
  | file (id : FileId)
deriving DecidableEq, Repr

namespace Link

def Leads (d : Document) : Link → Prop
  | .decl id => id.index.toNat < d.declarations.length
  | .file id => id.index.toNat < d.files.length

instance (d : Document) : DecidablePred (Leads d)
  | .decl id => inferInstanceAs (Decidable (id.index.toNat < d.declarations.length))
  | .file id => inferInstanceAs (Decidable (id.index.toNat < d.files.length))

def error : Link → ProgramError
  | .decl id => .danglingDecl id
  | .file id => .missingFile id

def check (d : Document) (link : Link) : Except ProgramError Unit :=
  if link.Leads d then .ok () else .error link.error

theorem check_of_leads {d : Document} {link : Link} (h : link.Leads d) : link.check d = .ok () :=
  if_pos h

theorem check_of_not_leads {d : Document} {link : Link} (h : ¬link.Leads d) :
    link.check d = .error link.error := if_neg h

end Link

def DeclParent.links : DeclParent → List Link
  | .decl id => [.decl id]
  | .file id => [.file id]
  | .package _ => []

def DeclKind.links : DeclKind → List Link
  | .class c => c.members.map .decl ++ c.typeParameters.map .decl
  | _ => []

def Declaration.links (d : Declaration) : List Link := d.parent.links ++ d.kind.links

/-- All references of a document: first those of the files, then those of one
declaration after the other. -/
def Document.links (d : Document) : List Link :=
  d.files.flatMap (fun file => file.declarations.map .decl) ++ d.declarations.flatMap (·.links)

namespace Program

open List (forM_append forM_cons forM_map)

/-- Whether the number of declarations is cut to the width of an identifier makes no difference
where identifiers can number all of them. -/
theorem checkDecl_eq {count : Nat} (h : count < UInt32.size) (id : DeclId) :
    checkDecl count id =
      if id.index < UInt32.ofNat count then .ok () else .error (.danglingDecl id) := by
  have hcut : (UInt32.ofNat count).toNat = count := UInt32.toNat_ofNat_of_lt h
  simp only [checkDecl, UInt32.lt_iff_toNat_lt, hcut]

theorem forM_flatMap {α β ε : Type} (f : β → Except ε Unit) (parts : α → List β) (as : List α) :
    forM (as.flatMap parts) f = forM as fun a => forM (parts a) f := by
  induction as with
  | nil => rfl
  | cons a as ih => rw [List.flatMap_cons, forM_append, ih, forM_cons]

theorem forM_link (d : Document) (link : Link) : forM [link] (Link.check d) = link.check d := by
  rw [forM_cons, List.forM_nil]
  exact bind_pure_unit

theorem checkDeclaration_eq (d : Document) (declaration : Declaration) :
    checkDeclaration d.declarations.length d.files.length declaration =
      forM declaration.links (Link.check d) := by
  have hkind : forM declaration.kind.links (Link.check d) =
      match declaration.kind with
      | .class c => do
        c.members.forM (checkDecl d.declarations.length)
        c.typeParameters.forM (checkDecl d.declarations.length)
      | _ => pure () := by
    cases declaration.kind with
    | «class» c =>
      simp only [DeclKind.links, forM_append, forM_map]
      rfl
    | _ => rfl
  rw [Declaration.links, forM_append, hkind, checkDeclaration]
  cases declaration.parent with
  | decl id =>
    rw [DeclParent.links, forM_link]
    rfl
  | file id =>
    rw [DeclParent.links, forM_link]
    by_cases hleads : (Link.file id).Leads d
    · rw [Link.check_of_leads hleads]
      exact if_neg (Nat.not_le_of_lt hleads)
    · rw [Link.check_of_not_leads hleads]
      exact if_pos (Nat.le_of_not_lt hleads)
  | package => rfl

theorem check_eq (d : Document) : check d = forM d.links (Link.check d) := by
  rw [Document.links, forM_append, forM_flatMap, forM_flatMap]
  simp only [forM_map, ← checkDeclaration_eq]
  rfl

theorem forM_check_eq_ok {d : Document} {links : List Link} :
    forM links (Link.check d) = .ok () ↔ ∀ link ∈ links, link.Leads d := by
  induction links with
  | nil => exact ⟨fun _ => nofun, fun _ => rfl⟩
  | cons link links ih =>
    rw [forM_cons, List.forall_mem_cons, ← ih]
    unfold Link.check
    split
    · next hleads => exact Iff.intro (fun h => ⟨hleads, h⟩) fun h => h.2
    · next hdangling => exact Iff.intro (fun h => nomatch h) fun h => absurd h.1 hdangling

/-- The check stops at the first reference that leads nowhere. -/
theorem forM_check_eq_error {d : Document} {links : List Link} {e : ProgramError} :
    forM links (Link.check d) = .error e ↔ ∃ front link rest, links = front ++ link :: rest ∧
      (∀ earlier ∈ front, earlier.Leads d) ∧ ¬link.Leads d ∧ e = link.error := by
  induction links with
  | nil =>
    refine ⟨fun h => (nomatch h), ?_⟩
    rintro ⟨front, link, rest, hsplit, -⟩
    simp at hsplit
  | cons first links ih =>
    rw [forM_cons, Link.check]
    split
    · next hleads =>
      refine ih.trans ⟨?_, ?_⟩
      · rintro ⟨front, link, rest, rfl, hfront, hlink⟩
        exact ⟨first :: front, link, rest, rfl, List.forall_mem_cons.mpr ⟨hleads, hfront⟩, hlink⟩
      · rintro ⟨front, link, rest, hsplit, hfront, hlink, rfl⟩
        cases front with
        | nil =>
          cases hsplit
          exact absurd hleads hlink
        | cons other front =>
          cases hsplit
          exact ⟨front, link, rest, rfl, (List.forall_mem_cons.mp hfront).2, hlink, rfl⟩
    · next hdangling =>
      refine ⟨?_, ?_⟩
      · intro h
        cases h
        exact ⟨[], first, links, rfl, nofun, hdangling, rfl⟩
      · rintro ⟨front, link, rest, hsplit, hfront, hlink, rfl⟩
        cases front with
        | nil =>
          cases hsplit
          rfl
        | cons other front =>
          cases hsplit
          exact absurd (hfront first List.mem_cons_self) hdangling

end Program

/-! ## The index -/

namespace Program

variable {p q : Program} {id : DeclId} {name : String}

theorem declares_of_fqName? (h : p.fqName? id = some name) : p.Declares id := by
  obtain ⟨c, hc, -⟩ := named_of_fqName? h
  exact declares_of_isClass (by rw [isClass, hc]; rfl)

/-- The class has this name, and no class before it has. -/
def First (p : Program) (name : String) (id : DeclId) : Prop :=
  p.isClass id = true ∧ p.fqName? id = some name ∧
    ∀ other, p.fqName? other = some name → id.index ≤ other.index

theorem First.unique {other : DeclId} (h : p.First name id) (k : p.First name other) :
    id = other := by
  obtain ⟨i⟩ := id
  obtain ⟨j⟩ := other
  exact congrArg DeclId.mk (UInt32.le_antisymm (h.2.2 _ k.2.1) (k.2.2 _ h.2.1))

theorem first_of_fqName? (h : p.fqName? id = some name)
    (hleast : ∀ other, p.fqName? other = some name → id.index ≤ other.index) : p.First name id := by
  obtain ⟨c, hc, -⟩ := named_of_fqName? h
  exact ⟨by rw [isClass, hc]; rfl, h, hleast⟩

/-- The index has the name of every class, and leads to the first class of a name. -/
structure Indexed (p : Program) : Prop where
  complete : ∀ name id, p.fqName? id = some name → (p.classByFqName? name).isSome
  sound : p.Numbered → ∀ name id, p.classByFqName? name = some id → p.First name id

theorem Indexed.iff_first (h : p.Indexed) (hn : p.Numbered) (name : String) (id : DeclId) :
    p.classByFqName? name = some id ↔ p.First name id := by
  refine ⟨h.sound hn name id, fun hfirst => ?_⟩
  obtain ⟨found, hfound⟩ := Option.isSome_iff_exists.mp (h.complete name id hfirst.2.1)
  rw [hfound, (h.sound hn name found hfound).unique hfirst]

theorem lt_size_of_declares (h : p.Declares id) : id.index.toNat < p.declarations.size := by
  obtain ⟨d, hd⟩ := Option.isSome_iff_exists.mp h
  exact (Array.getElem?_eq_some_iff.mp hd).1

theorem mem_indexOf : (name, id) ∈ p.indexOf ↔ p.fqName? id = some name := by
  unfold indexOf
  refine List.mem_filterMap.trans ⟨?_, fun h => ?_⟩
  · rintro ⟨i, -, hi⟩
    obtain ⟨found, hfound, hentry⟩ := Option.map_eq_some_iff.mp hi
    cases hentry
    exact hfound
  · refine ⟨id.index.toNat, List.mem_range.mpr (lt_size_of_declares (declares_of_fqName? h)), ?_⟩
    simp [h]

theorem indexOf_sorted (hn : p.Numbered) :
    p.indexOf.Pairwise fun a b => a.2.index < b.2.index := by
  refine List.pairwise_filterMap.mpr ?_
  refine List.Pairwise.imp_of_mem ?_ List.pairwise_lt_range
  intro i j hi hj hlt a ha b hb
  obtain ⟨-, -, rfl⟩ := Option.map_eq_some_iff.mp ha
  obtain ⟨-, -, rfl⟩ := Option.map_eq_some_iff.mp hb
  have hj : j < UInt32.size := Nat.lt_of_lt_of_le (List.mem_range.mp hj) hn
  have hnumber {n : Nat} (h : n < UInt32.size) : (UInt32.ofNat n).toNat = n :=
    UInt32.toNat_ofNat_of_lt h
  refine UInt32.lt_iff_toNat_lt.mpr ?_
  dsimp only
  rw [hnumber hj, hnumber (Nat.lt_trans hlt hj)]
  exact hlt

theorem indexed_indexOf (hindex : p.classIndex = p.indexOf) : p.Indexed where
  complete name id h := by
    rw [classByFqName?, hindex]
    exact List.lookup_isSome_iff.mpr ⟨(name, id), mem_indexOf.mpr h, by simp⟩
  sound hn name id h := by
    rw [classByFqName?, hindex] at h
    obtain ⟨front, rest, hsplit, hfront⟩ := List.lookup_eq_some_iff.mp h
    have hsorted := indexOf_sorted hn
    rw [hsplit] at hsorted
    have hid : (name, id) ∈ p.indexOf := by simp [hsplit]
    refine first_of_fqName? (mem_indexOf.mp hid) fun other hother => ?_
    have hmem := mem_indexOf.mpr hother
    rw [hsplit] at hmem
    rcases List.mem_append.mp hmem with hbefore | hafter
    · simpa using hfront _ hbefore
    · rcases List.mem_cons.mp hafter with hself | hlater
      · cases hself
        exact UInt32.le_refl _
      · have hlt := (List.pairwise_cons.mp (List.pairwise_append.mp hsorted).2.1).1 _ hlater
        exact UInt32.le_of_lt hlt

/-! ## Stubs -/

theorem addBuiltin_found (h : (p.classByFqName? (qualify "kotlin" name)).isSome) :
    p.addBuiltin name = p := if_pos h

def withStub (p : Program) (name : String) : Program :=
  { p with
    declarations := p.declarations.push (builtinStub name)
    classIndex := p.classIndex ++ [(qualify "kotlin" name, ⟨UInt32.ofNat p.declarations.size⟩)] }

theorem addBuiltin_missing (h : ¬(p.classByFqName? (qualify "kotlin" name)).isSome) :
    p.addBuiltin name = p.withStub name := if_neg h

theorem extends_withStub (p : Program) (name : String) : p.Extends (p.withStub name) where
  files := rfl
  decl id hid := by
    have hlt := lt_size_of_declares hid
    rw [decl?, withStub, Array.getElem?_push_lt hlt, decl?, Array.getElem?_eq_getElem hlt]
  size := by simp [withStub]

theorem decl?_withStub (h : id.index.toNat = p.declarations.size) :
    (p.withStub name).decl? id = some (builtinStub name) := by
  simp [decl?, withStub, h]

theorem declares_withStub (h : (p.withStub name).Declares id) :
    p.Declares id ∨ id.index.toNat = p.declarations.size := by
  have hlt := lt_size_of_declares h
  rw [withStub, Array.size_push] at hlt
  rcases Nat.lt_succ_iff_lt_or_eq.mp hlt with hlt | heq
  · exact .inl (by simp [Declares, decl?, hlt])
  · exact .inr heq

theorem closed_withStub (h : p.Closed) : (p.withStub name).Closed := by
  intro id around haround
  have hextends := extends_withStub p name
  rcases declares_withStub (declares_of_around? id (by rw [haround]; rfl)) with hold | hnew
  · refine hextends.declares (h id around ?_)
    rw [← haround, around?, around?, parent?, parent?, hextends.decl id hold]
  · simp [around?, parent?, decl?_withStub hnew, builtinStub] at haround

theorem fqName?_of_builtinStub (h : p.decl? id = some (builtinStub name)) :
    p.fqName? id = some (qualify "kotlin" name) := by
  simp [fqName?, classChain?, packageOf, walkLimit, chainWithin, packageWithin, h, builtinStub]

theorem fqName?_stub (h : id.index.toNat = p.declarations.size) :
    (p.withStub name).fqName? id = some (qualify "kotlin" name) :=
  fqName?_of_builtinStub (decl?_withStub h)

theorem classByFqName?_withStub (other : String) :
    (p.withStub name).classByFqName? other = (p.classByFqName? other).or
      (if other = qualify "kotlin" name then some ⟨UInt32.ofNat p.declarations.size⟩
        else none) := by
  rw [classByFqName?, withStub, List.lookup_append, List.lookup_cons]
  by_cases h : other = qualify "kotlin" name
  · simp [h, classByFqName?]
  · rw [if_neg h, beq_eq_false_iff_ne.mpr h]
    rfl

theorem fqName?_withStub (hc : p.Closed) {other : String}
    (h : (p.withStub name).fqName? id = some other) :
    p.fqName? id = some other ∨
      id.index.toNat = p.declarations.size ∧ other = qualify "kotlin" name := by
  rcases declares_withStub (declares_of_fqName? h) with hold | hnew
  · exact .inl (((extends_withStub p name).fqName? hc hold).symm.trans h)
  · exact .inr ⟨hnew, Option.some.inj (h.symm.trans (fqName?_stub hnew))⟩

theorem indexed_withStub (hc : p.Closed) (h : p.Indexed)
    (hmissing : ¬(p.classByFqName? (qualify "kotlin" name)).isSome) :
    (p.withStub name).Indexed where
  complete other id hid := by
    rw [classByFqName?_withStub]
    rcases fqName?_withStub hc hid with hold | ⟨-, rfl⟩
    · obtain ⟨found, hfound⟩ := Option.isSome_iff_exists.mp (h.complete other id hold)
      rw [hfound]
      rfl
    · rw [if_pos rfl]
      cases p.classByFqName? (qualify "kotlin" name) <;> rfl
  sound hn other id hid := by
    have hlt : p.declarations.size < UInt32.size := by
      simpa [Numbered, withStub, Nat.succ_le_iff] using hn
    have hindex : (UInt32.ofNat p.declarations.size).toNat = p.declarations.size :=
      UInt32.toNat_ofNat_of_lt hlt
    rw [classByFqName?_withStub] at hid
    cases hold : p.classByFqName? other with
    | some found =>
      obtain rfl : found = id := by simpa [hold] using hid
      obtain ⟨-, hname, hleast⟩ := h.sound (Nat.le_of_lt hlt) other found hold
      have hdeclares := declares_of_fqName? hname
      refine first_of_fqName? (((extends_withStub p name).fqName? hc hdeclares).trans hname) ?_
      intro later hlater
      rcases fqName?_withStub hc hlater with hboth | ⟨hnew, -⟩
      · exact hleast later hboth
      · rw [UInt32.le_iff_toNat_le, hnew]
        exact Nat.le_of_lt (lt_size_of_declares hdeclares)
    | none =>
      simp only [hold, Option.none_or] at hid
      split at hid
      · next heq =>
        cases hid
        subst heq
        refine first_of_fqName? (fqName?_stub hindex) fun later hlater => ?_
        rcases fqName?_withStub hc hlater with hboth | ⟨hnew, -⟩
        · exact absurd (h.complete _ later hboth) hmissing
        · exact UInt32.le_iff_toNat_le.mpr (Nat.le_of_eq (hindex.trans hnew.symm))
      · cases hid

/-- What adding builtin classes keeps, and what it adds. -/
structure Completes (p : Program) (names : List String) (q : Program) : Prop where
  larger : p.Extends q
  closed : q.Closed
  indexed : q.Indexed
  declarations : q.declarations.toList = p.declarations.toList ++
    (names.filter fun name => (p.classByFqName? (qualify "kotlin" name)).isNone).map builtinStub
  known : ∀ name, (p.classByFqName? name).isSome → (q.classByFqName? name).isSome
  found : ∀ name ∈ names, (q.builtin? name).isSome

theorem qualify_kotlin_inj {a b : String} (h : qualify "kotlin" a = qualify "kotlin" b) :
    a = b := by
  simpa [qualify, String.append_assoc] using h

theorem completes_foldl (hc : p.Closed) (hi : p.Indexed) {names : List String}
    (hnodup : names.Nodup) : p.Completes names (names.foldl addBuiltin p) := by
  induction names generalizing p with
  | nil => exact ⟨.refl p, hc, hi, by simp, fun _ h => h, nofun⟩
  | cons name names ih =>
    obtain ⟨hname, hnodup⟩ := List.nodup_cons.mp hnodup
    rw [List.foldl_cons]
    by_cases hfound : (p.classByFqName? (qualify "kotlin" name)).isSome
    · rw [addBuiltin_found hfound]
      obtain ⟨hlarger, hclosed, hindexed, hdeclarations, hknown, hall⟩ := ih hc hi hnodup
      refine ⟨hlarger, hclosed, hindexed, ?_, hknown, ?_⟩
      · rw [hdeclarations, List.filter_cons_of_neg (by simp [Option.isSome_iff_ne_none.mp hfound])]
      · exact List.forall_mem_cons.mpr ⟨hknown _ hfound, hall⟩
    · rw [addBuiltin_missing hfound]
      obtain ⟨hlarger, hclosed, hindexed, hdeclarations, hknown, hall⟩ :=
        ih (closed_withStub hc) (indexed_withStub hc hi hfound) hnodup
      have hstub : ((p.withStub name).classByFqName? (qualify "kotlin" name)).isSome := by
        rw [classByFqName?_withStub, if_pos rfl]
        cases p.classByFqName? (qualify "kotlin" name) <;> rfl
      have hother : ∀ other ∈ names, (p.withStub name).classByFqName? (qualify "kotlin" other) =
          p.classByFqName? (qualify "kotlin" other) := by
        intro other hmem
        rw [classByFqName?_withStub, if_neg, Option.or_none]
        intro heq
        exact hname (qualify_kotlin_inj heq ▸ hmem)
      refine ⟨(extends_withStub p name).trans hlarger, hclosed, hindexed, ?_, ?_, ?_⟩
      · have hrest : (names.filter fun other =>
              ((p.withStub name).classByFqName? (qualify "kotlin" other)).isNone) =
            names.filter fun other => (p.classByFqName? (qualify "kotlin" other)).isNone :=
          List.filter_congr fun other hmem => by rw [hother other hmem]
        rw [hdeclarations, hrest, List.filter_cons_of_pos (by simpa using hfound)]
        simp [withStub]
      · intro other hsome
        refine hknown other ?_
        obtain ⟨id, hid⟩ := Option.isSome_iff_exists.mp hsome
        rw [classByFqName?_withStub, hid]
        rfl
      · exact List.forall_mem_cons.mpr ⟨hknown _ hstub, hall⟩

end Program

/-! ## Programs of documents -/

/-- The declarations of a document, without builtin classes and without an index. -/
def Document.given (d : Document) : Program :=
  { files := d.files.toArray, declarations := d.declarations.toArray, classIndex := [] }

namespace Program

def classNames (p : Program) : List String := p.indexOf.map (·.1)

/-- The builtin classes whose names no class has. -/
def missingBuiltins (p : Program) : List String :=
  builtinClasses.filter fun name => qualify "kotlin" name ∉ p.classNames

def withIndex (p : Program) : Program := { p with classIndex := p.indexOf }

theorem ofDocument_eq (d : Document) :
    ofDocument d = (check d).map fun _ => d.given.withIndex.addBuiltins := by
  unfold ofDocument
  cases check d <;> rfl

theorem extends_withIndex (p : Program) : p.Extends p.withIndex :=
  ⟨rfl, fun _ _ => rfl, Nat.le_refl _⟩

theorem closed_withIndex {p : Program} (hc : p.Closed) : p.withIndex.Closed := hc

theorem fqName?_withIndex {p : Program} (hc : p.Closed) (id : DeclId) :
    p.withIndex.fqName? id = p.fqName? id := by
  have hdeclared (h : p.Declares id) : p.withIndex.fqName? id = p.fqName? id :=
    (extends_withIndex p).fqName? hc h
  refine Option.ext fun name => ⟨fun h => ?_, fun h => ?_⟩
  · have hdeclares : p.withIndex.Declares id := declares_of_fqName? h
    exact (hdeclared hdeclares).symm.trans h
  · exact (hdeclared (declares_of_fqName? h)).trans h

theorem indexed_withIndex {p : Program} (hc : p.Closed) : p.withIndex.Indexed := by
  refine indexed_indexOf ?_
  unfold indexOf
  simp only [fqName?_withIndex hc]
  rfl

theorem isNone_withIndex {p : Program} (name : String) :
    (p.withIndex.classByFqName? name).isNone = decide (name ∉ p.classNames) := by
  have hiff : (p.withIndex.classByFqName? name).isSome ↔ name ∈ p.classNames := by
    refine List.lookup_isSome_iff.trans ⟨?_, fun h => ?_⟩
    · rintro ⟨entry, hentry, hname⟩
      exact List.mem_map.mpr ⟨entry, hentry, (beq_iff_eq.mp hname).symm⟩
    · obtain ⟨entry, hentry, rfl⟩ := List.mem_map.mp h
      exact ⟨entry, hentry, BEq.rfl⟩
  rw [← Option.not_isSome, decide_not]
  exact congrArg _ (Bool.eq_iff_iff.mpr (hiff.trans decide_eq_true_iff.symm))

theorem closed_given {d : Document} (h : ∀ link ∈ d.links, link.Leads d) : d.given.Closed := by
  intro id around haround
  obtain ⟨declaration, hdecl, hparent⟩ : ∃ declaration, d.given.decl? id = some declaration ∧
      declaration.parent = .decl around := by
    unfold around? parent? at haround
    cases hd : d.given.decl? id with
    | none => simp [hd] at haround
    | some declaration =>
      refine ⟨declaration, rfl, ?_⟩
      cases hparent : declaration.parent <;> simp_all
  have hmem : declaration ∈ d.declarations := by
    simpa [Document.given] using Array.mem_of_getElem? hdecl
  have hlink : Link.decl around ∈ d.links := by
    refine List.mem_append_right _ (List.mem_flatMap.mpr ⟨declaration, hmem, ?_⟩)
    rw [Declaration.links, hparent]
    exact List.mem_append_left _ (List.mem_singleton_self _)
  have hlt : around.index.toNat < d.declarations.length := h _ hlink
  simp [Declares, decl?, Document.given, hlt]

end Program

/-- What the program of a document is. -/
structure Document.Established (d : Document) (p : Program) : Prop where
  files : p.files.toList = d.files
  declarations : p.declarations.toList =
    d.declarations ++ d.given.missingBuiltins.map Program.builtinStub
  index : p.Numbered → ∀ name id, p.classByFqName? name = some id ↔ p.First name id
  builtins : ∀ name ∈ Program.builtinClasses, (p.builtin? name).isSome
  fqName : ∀ id, d.given.Declares id → p.fqName? id = d.given.fqName? id
  binaryName : ∀ id, d.given.Declares id → p.binaryName? id = d.given.binaryName? id
  packageOf : ∀ id, d.given.Declares id → p.packageOf id = d.given.packageOf id
  fileOf : ∀ id, d.given.Declares id → p.fileOf? id = d.given.fileOf? id

theorem Document.Established.decl? {d : Document} {p : Program} (h : d.Established p)
    (id : DeclId) : p.decl? id =
      (d.declarations ++ d.given.missingBuiltins.map Program.builtinStub)[id.index.toNat]? := by
  rw [Program.decl?, ← h.declarations, Array.getElem?_toList]

namespace Program

theorem builtinClasses_nodup : builtinClasses.Nodup := by decide

theorem completes_given {d : Document} (h : ∀ link ∈ d.links, link.Leads d) :
    d.given.withIndex.Completes builtinClasses d.given.withIndex.addBuiltins :=
  completes_foldl (closed_withIndex (closed_given h)) (indexed_withIndex (closed_given h))
    builtinClasses_nodup

theorem established_ofDocument {d : Document} (h : ∀ link ∈ d.links, link.Leads d) :
    d.Established d.given.withIndex.addBuiltins := by
  have hclosed := closed_given h
  obtain ⟨hlarger, -, hindexed, hdeclarations, -, hfound⟩ := completes_given h
  have hextends := (extends_withIndex d.given).trans hlarger
  refine
    { files := congrArg Array.toList hextends.files
      declarations := ?_
      index := hindexed.iff_first
      builtins := hfound
      fqName := fun _ => hextends.fqName? hclosed
      binaryName := fun _ => hextends.binaryName? hclosed
      packageOf := fun _ => hextends.packageOf hclosed
      fileOf := fun _ => hextends.fileOf? hclosed }
  simp only [isNone_withIndex] at hdeclarations
  exact hdeclarations

theorem leads_of_ofDocument {d : Document} {p : Program} (h : ofDocument d = .ok p) :
    (∀ link ∈ d.links, link.Leads d) ∧ p = d.given.withIndex.addBuiltins := by
  rw [ofDocument_eq, check_eq] at h
  cases hcheck : forM d.links (Link.check d) with
  | error e => simp [hcheck, Except.map] at h
  | ok u =>
    refine ⟨forM_check_eq_ok.mp hcheck, ?_⟩
    simpa [hcheck, Except.map, eq_comm] using h

theorem closed_ofDocument {d : Document} {p : Program} (h : ofDocument d = .ok p) : p.Closed := by
  obtain ⟨hleads, hp⟩ := leads_of_ofDocument h
  rw [hp]
  exact (completes_given hleads).closed

theorem file?_isSome_of_parent? {d : Document} {p : Program} (h : ofDocument d = .ok p)
    {id : DeclId} {file : FileId} (hparent : p.parent? id = some (.file file)) :
    (p.file? file).isSome := by
  obtain ⟨hleads, heq⟩ := leads_of_ofDocument h
  have hp : d.Established p := heq ▸ established_ofDocument hleads
  obtain ⟨declaration, hdecl, hfile⟩ := Option.map_eq_some_iff.mp hparent
  have hmem : declaration ∈ d.declarations ++ d.given.missingBuiltins.map builtinStub := by
    rw [← hp.declarations]
    exact Array.mem_toList_iff.mpr (Array.mem_of_getElem? hdecl)
  rcases List.mem_append.mp hmem with hgiven | hstub
  · have hlink : Link.file file ∈ d.links := by
      refine List.mem_append_right _ (List.mem_flatMap.mpr ⟨declaration, hgiven, ?_⟩)
      rw [Declaration.links, hfile]
      exact List.mem_append_left _ (List.mem_singleton_self _)
    have hlt : file.index.toNat < d.files.length := hleads _ hlink
    rw [← hp.files] at hlt
    simpa [file?] using hlt
  · obtain ⟨name, -, rfl⟩ := List.mem_map.mp hstub
    cases hfile

/-- A document is a program just if every reference leads to a part of it, and the
error tells the first reference that does not. -/
theorem ofDocument_establishes (d : Document) :
    ((∃ p, ofDocument d = .ok p) ↔ ∀ link ∈ d.links, link.Leads d) ∧
      (∀ e, ofDocument d = .error e ↔ ∃ front link rest, d.links = front ++ link :: rest ∧
        (∀ earlier ∈ front, earlier.Leads d) ∧ ¬link.Leads d ∧ e = link.error) ∧
      ∀ p, ofDocument d = .ok p → d.Established p := by
  rw [ofDocument_eq, check_eq]
  refine ⟨?_, fun e => ?_, fun p hp => ?_⟩
  · rw [← forM_check_eq_ok]
    cases forM d.links (Link.check d) <;> simp [Except.map]
  · rw [← forM_check_eq_error]
    cases forM d.links (Link.check d) <;> simp [Except.map]
  · cases hcheck : forM d.links (Link.check d) with
    | error e => simp [hcheck, Except.map] at hp
    | ok u =>
      obtain rfl : d.given.withIndex.addBuiltins = p := by simpa [hcheck, Except.map] using hp
      exact established_ofDocument (forM_check_eq_ok.mp hcheck)

/-- A class that is a member of itself, and two classes of the name `kotlin.Int`. -/
def doubled : Document :=
  { files := [{ path := "Int.kt", package := "kotlin", declarations := [⟨1⟩, ⟨2⟩] }]
    declarations :=
      [{ parent := .decl ⟨0⟩, kind := .class { name := "Int", members := [⟨0⟩] } },
        { parent := .file ⟨0⟩, kind := .class { name := "Int" } },
        { parent := .file ⟨0⟩, kind := .class { name := "Int" } }] }

theorem ofDocument_establishes_doubled : ∃ p, ofDocument doubled = .ok p ∧ p.Numbered ∧
    doubled.Established p ∧ p.First "kotlin.Int" ⟨1⟩ := by
  obtain ⟨-, -, hestablished⟩ := ofDocument_establishes doubled
  have hall : (ofDocument doubled).toOption.any (fun p =>
      decide (p.declarations.size ≤ UInt32.size) &&
        p.classByFqName? "kotlin.Int" == some ⟨1⟩) = true := by decide +kernel
  cases hd : ofDocument doubled with
  | error e =>
    rw [hd] at hall
    cases hall
  | ok p =>
    rw [hd] at hall
    simp only [Except.toOption, Option.any_some, Bool.and_eq_true, decide_eq_true_eq,
      beq_iff_eq] at hall
    obtain ⟨hn, hfirst⟩ := hall
    have hp := hestablished p hd
    exact ⟨p, rfl, hn, hp, (hp.index hn _ _).mp hfirst⟩

example : ofDocument { doubled with declarations := doubled.declarations.take 2 } =
    .error (.danglingDecl ⟨2⟩) := by rfl

end Program

end IrFacts
