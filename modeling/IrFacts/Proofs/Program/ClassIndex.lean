import IrFacts.Proofs.Run.Names
import IrFacts.Types.Arrays

/-!
# The class index

The index leads from a name to a class that ends in the same simple name, and
this is all that is needed to tell the builtin classes from the array classes.
-/

set_option autoImplicit false

namespace IrFacts

/-! ## Simple names -/

def simpleName (name : String) : String :=
  String.ofList (name.toList.reverse.takeWhile (· ≠ '.')).reverse

theorem takeWhile_append_stop {cs rest : List Char} :
    (cs ++ '.' :: rest).takeWhile (· ≠ '.') = cs.takeWhile (· ≠ '.') := by
  induction cs with
  | nil => rfl
  | cons c cs ih =>
    rw [List.cons_append, List.takeWhile_cons, List.takeWhile_cons, ih]

theorem simpleName_dot (front name : String) :
    simpleName (front ++ "." ++ name) = simpleName name := by
  simp only [simpleName, String.toList_append, List.reverse_append, List.append_assoc]
  exact congrArg (fun cs => String.ofList (List.reverse cs)) takeWhile_append_stop

theorem simpleName_qualify (package name : String) :
    simpleName (qualify package name) = simpleName name := by
  unfold qualify
  split
  · rfl
  · exact simpleName_dot package name

theorem simpleName_intercalate (outer : List String) (name : String) :
    simpleName (".".intercalate (outer ++ [name])) = simpleName name := by
  induction outer with
  | nil => rfl
  | cons first rest ih =>
    have hjoin : ".".intercalate (first :: (rest ++ [name])) =
        first ++ "." ++ ".".intercalate (rest ++ [name]) := by
      cases rest <;> exact String.intercalate_cons_cons
    rw [List.cons_append, hjoin, simpleName_dot, ih]

namespace Program

variable {p : Program} {id : DeclId}

theorem chainWithin_own {steps : Nat} {inner chain : List String}
    (h : p.chainWithin steps inner id = some chain) :
    ∃ outer c, p.class? id = some c ∧ chain = outer ++ c.name :: inner := by
  induction steps generalizing inner id with
  | zero => cases h
  | succ steps ih =>
    rw [chainWithin] at h
    split at h
    · cases h
    · next d hd =>
      split at h
      · next c hk =>
        have hclass : p.class? id = some c := by simp [class?, hd, hk]
        split at h
        · split at h
          · obtain ⟨outer, around, -, rfl⟩ := ih h
            exact ⟨outer ++ [around.name], c, hclass, by simp⟩
          · cases h
            exact ⟨[], c, hclass, rfl⟩
        · cases h
          exact ⟨[], c, hclass, rfl⟩
      · cases h

def Named (p : Program) (id : DeclId) (simple : String) : Prop :=
  ∃ c, p.class? id = some c ∧ simpleName c.name = simple

theorem named_of_fqName? {name : String} (h : p.fqName? id = some name) :
    p.Named id (simpleName name) := by
  obtain ⟨chain, hchain, rfl⟩ := Option.map_eq_some_iff.mp h
  obtain ⟨outer, c, hclass, rfl⟩ := chainWithin_own hchain
  exact ⟨c, hclass, by rw [simpleName_qualify, simpleName_intercalate]⟩

theorem Named.unique {a b : String} (h : p.Named id a) (k : p.Named id b) : a = b := by
  obtain ⟨c, hc, rfl⟩ := h
  obtain ⟨d, hd, rfl⟩ := k
  cases hc.symm.trans hd
  rfl

/-! ## What the index leads to -/

def IndexNames (p : Program) : Prop :=
  ∀ entry ∈ p.classIndex, p.Named entry.2 (simpleName entry.1)

def Numbered (p : Program) : Prop := p.declarations.size ≤ UInt32.size

theorem indexNames_indexOf {bare : Program} :
    IndexNames { bare with classIndex := bare.indexOf } := by
  intro entry hentry
  obtain ⟨i, -, hi⟩ := List.mem_filterMap.mp hentry
  obtain ⟨name, hname, rfl⟩ := Option.map_eq_some_iff.mp hi
  obtain ⟨c, hc, hsame⟩ := named_of_fqName? hname
  exact ⟨c, hc, hsame⟩

/-- A declaration at the end of the table leaves the classes before it alone. -/
theorem Named.push {p q : Program} {d : Declaration} {simple : String}
    (hq : q.declarations = p.declarations.push d) (h : p.Named id simple) : q.Named id simple := by
  obtain ⟨c, hc, hname⟩ := h
  obtain ⟨d', hd', hk⟩ := decl_of_class? hc
  obtain ⟨hlt, -⟩ := Array.getElem?_eq_some_iff.mp hd'
  have hdecl : q.decl? id = some d' := by
    rw [decl?, hq, Array.getElem?_push_lt hlt]
    exact (Array.getElem?_eq_getElem hlt).symm.trans hd'
  exact ⟨c, by simp [class?, hdecl, hk], hname⟩

theorem size_le_addBuiltin (name : String) :
    p.declarations.size ≤ (p.addBuiltin name).declarations.size := by
  unfold addBuiltin
  dsimp only
  split
  · exact Nat.le_refl _
  · simp

theorem indexNames_addBuiltin {name : String} (hn : (p.addBuiltin name).Numbered)
    (h : p.IndexNames) : (p.addBuiltin name).IndexNames := by
  unfold addBuiltin at hn ⊢
  dsimp only at hn ⊢
  split at hn
  · next hfound =>
    rw [if_pos hfound]
    exact h
  · next hmissing =>
    rw [if_neg hmissing]
    intro entry hentry
    rcases List.mem_append.mp hentry with hold | hnew
    · exact (h entry hold).push rfl
    · obtain rfl := List.mem_singleton.mp hnew
      have hlt : p.declarations.size < UInt32.size := by
        rw [Numbered, Array.size_push] at hn
        omega
      have hindex : (UInt32.ofNat p.declarations.size).toNat = p.declarations.size :=
        UInt32.toNat_ofNat_of_lt hlt
      refine ⟨{ name }, ?_, ?_⟩
      · simp [class?, decl?, hindex, builtinStub]
      · exact (simpleName_qualify "kotlin" name).symm

theorem indexNames_addBuiltins (hn : p.addBuiltins.Numbered) (h : p.IndexNames) :
    p.addBuiltins.IndexNames := by
  unfold addBuiltins at hn ⊢
  generalize builtinClasses = names at hn ⊢
  induction names generalizing p with
  | nil => exact h
  | cons name rest ih =>
    have hsize (q : Program) :
        q.declarations.size ≤ (rest.foldl addBuiltin q).declarations.size := by
      clear ih hn
      induction rest generalizing q with
      | nil => exact Nat.le_refl _
      | cons other rest ih => exact Nat.le_trans (size_le_addBuiltin other) (ih _)
    exact ih (indexNames_addBuiltin (Nat.le_trans (hsize _) hn) h) hn

theorem indexNames_ofDocument {d : Document} (hd : ofDocument d = .ok p) (hn : p.Numbered) :
    p.IndexNames := by
  unfold ofDocument at hd
  cases hcheck : check d with
  | error e =>
    rw [hcheck] at hd
    cases hd
  | ok u =>
    rw [hcheck] at hd
    have hp : addBuiltins _ = p := Except.ok.inj hd
    subst hp
    exact indexNames_addBuiltins hn indexNames_indexOf

/-! ## Classes that are no arrays -/

theorem mem_of_classByFqName? {name : String} (h : p.classByFqName? name = some id) :
    (name, id) ∈ p.classIndex := by
  obtain ⟨front, rest, hindex, -⟩ := List.lookup_eq_some_iff.mp h
  rw [hindex]
  simp

def arrayNames : List String :=
  simpleName Builtins.boxedArray :: Builtins.primitiveArrays.map fun entry => simpleName entry.1

theorem simpleName_of_shape {name : String}
    (h : name = Builtins.boxedArray ∨ (Builtins.arrayElement? name).isSome) :
    simpleName name ∈ arrayNames := by
  rcases h with rfl | h
  · exact List.mem_cons_self ..
  · obtain ⟨element, helement⟩ := Option.isSome_iff_exists.mp h
    obtain ⟨front, rest, hentries, -⟩ := List.lookup_eq_some_iff.mp helement
    refine List.mem_cons_of_mem _ (List.mem_map.mpr ⟨(name, element), ?_, rfl⟩)
    rw [hentries]
    simp

/-- A builtin class is no array unless it ends in the name of one. -/
theorem shapeOfClass?_of_builtin (h : p.IndexNames) {name : String}
    (hid : p.builtin? name = some id) (hname : simpleName name ∉ arrayNames) :
    p.shapeOfClass? id = none := by
  have hnamed : p.Named id (simpleName name) := by
    have hentry := h _ (mem_of_classByFqName? hid)
    rwa [simpleName_qualify] at hentry
  cases hfq : p.fqName? id with
  | none => simp [shapeOfClass?, hfq]
  | some fq =>
    have hsame := hnamed.unique (named_of_fqName? hfq)
    rw [hsame] at hname
    have hneither := mt simpleName_of_shape hname
    simp only [not_or, Option.not_isSome_iff_eq_none] at hneither
    simp [shapeOfClass?, hfq, hneither]

/-- The builtin classes that projection itself asks for: what bounds a wildcard,
what the length of an array is, and the elements of arrays of primitives. -/
def plainBuiltins : List String := "Any" :: "Int" :: Builtins.primitiveArrays.map (·.2)

def BuiltinsPlain (p : Program) : Prop :=
  ∀ name ∈ plainBuiltins, ∀ id, p.builtin? name = some id → p.shapeOfClass? id = none

theorem builtinsPlain_of_index (h : p.IndexNames) : p.BuiltinsPlain := by
  have hnames : ∀ name ∈ plainBuiltins, simpleName name ∉ arrayNames := by decide
  exact fun name hname id hid => shapeOfClass?_of_builtin h hid (hnames name hname)

theorem mem_plainBuiltins {fq element : String} (h : Builtins.arrayElement? fq = some element) :
    element ∈ plainBuiltins := by
  obtain ⟨front, rest, hentries, -⟩ := List.lookup_eq_some_iff.mp h
  refine List.mem_cons_of_mem _ (List.mem_cons_of_mem _ (List.mem_map.mpr ⟨(fq, element), ?_, rfl⟩))
  rw [hentries]
  simp

theorem mem_plainBuiltins_of_shape {s : SimpleType} {element : String}
    (h : p.arrayShape? s = some (.primitive element)) : element ∈ plainBuiltins := by
  unfold arrayShape? at h
  split at h
  · obtain ⟨fq, -, hshape⟩ := Option.bind_eq_some_iff.mp h
    split at hshape
    · cases hshape
    · obtain ⟨element', helement, he⟩ := Option.map_eq_some_iff.mp hshape
      cases he
      exact mem_plainBuiltins helement
  · cases h

end Program

end IrFacts
