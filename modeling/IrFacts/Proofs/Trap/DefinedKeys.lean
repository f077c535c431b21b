import IrFacts.Proofs.Labels.DefinedFirst
import IrFacts.Proofs.Trap.ReadBack

/-!
# Definitions of keys are read back

A key is written as it is, while a text among the arguments of a fact has its quotes
written twice. The rule that reads arguments therefore gives back just the keys
without quotes, whatever else is in them, and these tell sequences of requests apart.
-/

set_option autoImplicit false

namespace IrFacts.Trap

/-! ## One definition -/

theorem unquote_iff {cs s : List Char} : unquote cs = some s ↔ cs = doubleQuotes s ++ ['"'] := by
  constructor
  · induction cs using unquote.induct generalizing s with
    | case1 => simp [unquote]
    | case2 =>
      intro h
      cases (Option.some.inj h : [] = s)
      rfl
    | case3 rest ih =>
      intro h
      obtain ⟨t, ht, rfl⟩ := Option.map_eq_some_iff.mp h
      simp [doubleQuotes, ih ht]
    | case4 rest _ hmore =>
      intro h
      simp [unquote] at h
    | case5 c rest hlast hmore hc ih =>
      intro h
      rw [unquote, if_neg hc] at h
      · obtain ⟨t, ht, rfl⟩ := Option.map_eq_some_iff.mp h
        rw [doubleQuotes, if_neg hc, List.cons_append, ← ih ht]
      · simpa using hlast
      · simpa using hmore
  · rintro rfl
    exact unquote_quotes s

theorem length_doubleQuotes (s : List Char) :
    (doubleQuotes s).length = s.length + s.count '"' := by
  induction s with
  | nil => rfl
  | cons c s ih =>
    rw [doubleQuotes]
    split
    · next hc => simp [ih, hc]; omega
    · next hc => simp [ih, hc]; omega

/-- Only what holds no quotes stays as it is when they are written twice. -/
theorem doubleQuotes_eq_self_iff {s : List Char} : doubleQuotes s = s ↔ '"' ∉ s := by
  constructor
  · intro h
    have hlength := length_doubleQuotes s
    rw [h] at hlength
    exact List.count_eq_zero.mp (by omega)
  · exact doubleQuotes_of_notMem

theorem Line.read_define (n : Nat) (key : String) :
    Line.read (Line.define (.number n) key).render.toList =
      (unquote (key.toList ++ ['"'])).map fun read => .define (.number n) (.ofList read) := by
  have hrender : (Line.define (.number n) key).render.toList =
      '#' :: ((toString n).toList ++ '=' :: '@' :: '"' :: (key.toList ++ ['"'])) := by
    simp [render, Label.render]
  have hdigits := span_stop (notMem_nat (c := '=') (by decide) n)
    ('@' :: '"' :: (key.toList ++ ['"']))
  have hnumber : (toString n).toNat? = some n := Nat.toNat?_repr n
  rw [hrender, Line.read, hdigits.1, hdigits.2, String.ofList_toList, hnumber]
  rfl

theorem Line.read_define_iff {n : Nat} {key read : String} :
    Line.read (Line.define (.number n) key).render.toList = some (.define (.number n) read) ↔
      key = escape read := by
  rw [Line.read_define, escape]
  constructor
  · intro h
    obtain ⟨cs, hcs, hread⟩ := Option.map_eq_some_iff.mp h
    injection hread with _ hread
    subst hread
    have hkey := List.append_cancel_right (unquote_iff.mp hcs)
    rw [String.toList_ofList, ← hkey, String.ofList_toList]
  · rintro rfl
    rw [String.toList_ofList, unquote_quotes, Option.map_some, String.ofList_toList]

/-! ## Sequences of requests -/

/-- The definitions of keys that get their numbers one after the other. -/
def definitions (next : Nat) (keys : List String) : List Line :=
  (keys.zipIdx next).map fun k => .define (.number k.2) k.1

theorem keys_definitions (next : Nat) (keys : List String) :
    (definitions next keys).filterMap Line.key? = keys := by
  induction keys generalizing next with
  | nil => rfl
  | cons key keys ih => exact congrArg (key :: ·) (ih (next + 1))

theorem plain_definitions {keys : List String} (h : ∀ key ∈ keys, '"' ∉ key.toList) (next : Nat) :
    ∀ l ∈ definitions next keys, l.Plain := by
  intro l hl
  obtain ⟨k, hk, rfl⟩ := List.mem_map.mp hl
  exact ⟨⟨k.2, rfl⟩, h k.1 (List.fst_mem_of_mem_zipIdx hk)⟩

/-- The keys that a table does not have, each where it is asked for first. -/
def unknownTo (t : LabelTable) (keys : List String) : List String :=
  (keys.filter fun key => (t.find? key).isNone).eraseDups

theorem unknownTo_cons_of_known {t : LabelTable} {key : String} (h : (t.find? key).isSome)
    (keys : List String) : unknownTo t (key :: keys) = unknownTo t keys := by
  rw [unknownTo, List.filter_cons_of_neg (by simpa [Option.isSome_iff_ne_none] using h)]
  rfl

theorem unknownTo_cons_of_unknown {t : LabelTable} {key : String} (h : t.find? key = none)
    (keys : List String) :
    unknownTo t (key :: keys) = key :: unknownTo (t.lookup key).2 keys := by
  have hlater : (keys.filter fun other => (t.find? other).isNone).filter (!· == key) =
      keys.filter fun other => ((t.lookup key).2.find? other).isNone := by
    rw [List.filter_filter]
    refine List.filter_congr fun other _ => ?_
    by_cases hother : other = key
    · simp [hother, LabelTable.find?_lookup]
    · simp [hother, LabelTable.find?_lookup_of_ne]
  rw [unknownTo, List.filter_cons_of_pos (by simp [h]), List.eraseDups_cons, hlater]
  rfl

theorem mem_of_unknownTo {t : LabelTable} {key : String} {keys : List String}
    (h : key ∈ unknownTo t keys) : key ∈ keys :=
  (List.mem_filter.mp (List.mem_eraseDups.mp h)).1

def asks (keys : List String) : List Command := keys.map .labelFor

theorem said_asks (t : LabelTable) (keys : List String) :
    said t (asks keys) = definitions t.next (unknownTo t keys) := by
  induction keys generalizing t with
  | nil => rfl
  | cons key keys ih =>
    have hstep : said t (asks (key :: keys)) =
        Command.lines t (.labelFor key) ++ said (t.lookup key).2 (asks keys) := rfl
    rw [hstep, ih, Command.lines]
    cases hfind : t.find? key with
    | some label =>
      have hsame : (t.lookup key).2 = t := by simp [LabelTable.lookup, hfind]
      rw [unknownTo_cons_of_known (by simp [hfind]), hsame]
      rfl
    | none =>
      have hnext : (t.lookup key).2.next = t.next + 1 := by simp [LabelTable.lookup, hfind]
      rw [unknownTo_cons_of_unknown hfind, hnext]
      rfl

/-! ## Writers -/

namespace Writer

/-- What commands add to the text of a writer that never fails. -/
theorem Unfailing.text_runs {w : Writer} (h : w.Unfailing) (cs : List Command) :
    (cs.foldl Command.run w).text =
      w.text ++ String.join ((said w.labels cs).map fun l => l.render ++ "\n") := by
  have hchunks := puts_took (puts_unfailing h (said w.labels cs)).2
  rw [runs_eq, text, Sink.text, hchunks, List.map_append, String.join_append, Sink.join_pairs]
  rfl

/-- A writer that was asked for the labels of keys, one after the other. -/
def asked (w : Writer) (keys : List String) : Writer :=
  keys.foldl (fun w key => (w.labelFor key).2) w

theorem asked_eq (w : Writer) (keys : List String) :
    w.asked keys = (asks keys).foldl Command.run w := by
  rw [asks, List.foldl_map]
  rfl

theorem Unfailing.text_asked {w : Writer} (h : w.Unfailing) (keys : List String) :
    (w.asked keys).text = w.text ++
      String.join ((definitions w.labels.next (unknownTo w.labels keys)).map
        fun l => l.render ++ "\n") := by
  rw [asked_eq, h.text_runs, said_asks]

/-- A key is read back from its definition if and only if there is no quote in it. Sequences
of such keys write the same text if and only if they have the same keys that are new to the
writer, in the order in which these are asked for first. -/
theorem asked_readBack {w : Writer} (hw : w.Unfailing) :
    (∀ key, w.labels.find? key = none →
      ∃ line : String, (w.lookup key).2.text = w.text ++ line ++ "\n" ∧
        (Line.read line.toList = some (.define (.number w.labels.next) key) ↔
          '"' ∉ key.toList) ∧
        ∀ read, Line.read line.toList = some (.define (.number w.labels.next) read) ↔
          key = escape read) ∧
    ∀ keys, (∀ key ∈ keys, '"' ∉ key.toList) →
      (∃ added, (w.asked keys).text = w.text ++ added ∧
        readLines added = some (definitions w.labels.next (unknownTo w.labels keys))) ∧
      ∀ others, (∀ key ∈ others, '"' ∉ key.toList) →
        ((w.asked keys).text = (w.asked others).text ↔
          unknownTo w.labels keys = unknownTo w.labels others) := by
  have hadded {keys : List String} (h : ∀ key ∈ keys, '"' ∉ key.toList) :
      readLines (String.join ((definitions w.labels.next (unknownTo w.labels keys)).map
        fun l => l.render ++ "\n")) = some (definitions w.labels.next (unknownTo w.labels keys)) :=
    readLines_text (plain_definitions (fun key hkey => h key (mem_of_unknownTo hkey)) _)
  refine ⟨fun key hkey => ?_, fun keys hkeys => ⟨⟨_, hw.text_asked keys, hadded hkeys⟩,
    fun others hothers => ⟨fun htext => ?_, fun hnew => ?_⟩⟩⟩
  · refine ⟨(Line.define (.number w.labels.next) key).render, ?_, ?_, fun _ =>
      Line.read_define_iff⟩
    · have htext := hw.text_asked [key]
      rw [unknownTo_cons_of_unknown hkey] at htext
      simpa [asked, labelFor, definitions, unknownTo, String.append_assoc] using htext
    · rw [Line.read_define_iff, ← doubleQuotes_eq_self_iff, ← String.toList_inj, escape,
        String.toList_ofList, eq_comm]
  · rw [hw.text_asked, hw.text_asked, String.append_right_inj] at htext
    have hsame := hadded hkeys
    rw [htext, hadded hothers] at hsame
    rw [← keys_definitions w.labels.next (unknownTo w.labels keys), ← Option.some.inj hsame,
      keys_definitions]
  · rw [hw.text_asked, hw.text_asked, hnew]

/-- A key over two lines is read back, two keys in another order are another text, and a key
with a quote is not read back: with a second quote and a newline it even writes what two
other keys write. -/
theorem asked_readBack_quoted :
    (ofSink .unbounded).Unfailing ∧
      (∃ line : String, ((ofSink .unbounded).lookup "a\nb").2.text = line ++ "\n" ∧
        Line.read line.toList = some (.define (.number 100) "a\nb")) ∧
      (∃ line : String, ((ofSink .unbounded).lookup "a\"b").2.text = line ++ "\n" ∧
        Line.read line.toList ≠ some (.define (.number 100) "a\"b")) ∧
      ((ofSink .unbounded).asked ["a", "b", "a"]).text ≠
        ((ofSink .unbounded).asked ["b", "a"]).text ∧
      ((ofSink .unbounded).asked ["a", "b", "a"]).text =
        ((ofSink .unbounded).asked ["a", "b"]).text ∧
      ((ofSink .unbounded).asked ["a\"\n#101=@\"b"]).text =
        ((ofSink .unbounded).asked ["a", "b"]).text := by
  have hw : (ofSink .unbounded).Unfailing := ⟨fun _ _ => rfl, rfl⟩
  obtain ⟨hkey, hkeys⟩ := asked_readBack hw
  have hplain : ∀ keys : List String, (keys.all fun key => !key.toList.contains '"') = true →
      ∀ key ∈ keys, '"' ∉ key.toList := by simp
  refine ⟨hw, ?_, ?_, ?_, ?_, by decide⟩
  · obtain ⟨line, htext, hread, -⟩ := hkey "a\nb" rfl
    exact ⟨line, htext.trans (by simp [text, Sink.text, Sink.chunks, ofSink, Sink.unbounded,
      String.join]), hread.mpr (by decide)⟩
  · obtain ⟨line, htext, hread, -⟩ := hkey "a\"b" rfl
    exact ⟨line, htext.trans (by simp [text, Sink.text, Sink.chunks, ofSink, Sink.unbounded,
      String.join]), fun h => hread.mp h (by decide)⟩
  · rw [Ne, (hkeys _ (hplain _ (by decide))).2 _ (hplain _ (by decide))]
    decide
  · rw [(hkeys _ (hplain _ (by decide))).2 _ (hplain _ (by decide))]
    decide

end Writer

end IrFacts.Trap
