import SubclassIndex.Proofs.Index.BothReaders

/-!
# Where the two readers of an index agree

A listing keeps the keys of a file as they stand, while the reader of an embedded index trims them
and takes slashes for dots; the flat listing keeps the lines with a hash sign. On texts of any
origin the two readers give the same answer exactly where this makes no difference
(`readers_agree_iff`).
-/

namespace SubclassIndex.Index

open ClassName

variable {d : Disk} {p : Path} {t base name key value : Text} {names : List Text}

/-! ## The file -/

theorem ofText_normalizeNewlines (shape : Shape) (flatBase t : Text) :
    Listing.ofText shape flatBase t.normalizeNewlines = Listing.ofText shape flatBase t := by
  cases shape with
  | flat => simp only [Listing.ofText, Listing.flatLines, Text.lines_normalizeNewlines]
  | properties =>
    simp only [Listing.ofText, Properties.read, Properties.entries, Text.lines_normalizeNewlines]

/-- The listing of a file is that of its text, however its line ends are spelled. -/
theorem load_eq_ofText (h : d.HoldsText p t) (shape : Shape) (flatBase : Text) :
    load shape flatBase d p = .ok (some (Listing.ofText shape flatBase t)) := by
  obtain ⟨bytes, hencode, hlookup⟩ := h
  have hdecode : Listing.ofBytes? shape flatBase bytes =
      some (Listing.ofText shape flatBase t) := by
    rw [Listing.ofBytes?, Utf8.decode?_of_encode? hencode, Option.map_some,
      ofText_normalizeNewlines]
  simp only [load, Disk.isFile_of_lookup hlookup, Disk.readFile_of_lookup hlookup, hdecode]

/-! ## Keys -/

theorem strip_internal (t : Text) : (internal t).strip = internal t.strip := by
  refine Text.trim_map (fun c => ?_) t
  split
  · next hc => rw [hc]; decide
  · rfl

/-- A key that is trimmed to a name has this name for its own exactly if nothing was trimmed. -/
theorem strip_eq_self_of_internal (h : internal key.strip = internal t) : t.strip = t := by
  have hinternal : internal t.strip = internal t := by
    rw [← strip_internal, ← h, strip_internal, Text.strip_strip]
  refine (Text.strip_sublist t).eq_of_length ?_
  have hlength := congrArg List.length hinternal
  rwa [internal, internal, Text.replacePoint, Text.replacePoint, List.length_map,
    List.length_map] at hlength

theorem internal_of_mem_listedNames (h : name ∈ listedNames value) : internal name = name := by
  obtain ⟨piece, -, hname⟩ := List.mem_filterMap.1 h
  split at hname
  · cases hname
  · cases hname
    exact internal_eq_self not_mem_internal

/-- Dotted for a listing, the names of a value are internal again. -/
theorem map_internal_dotted_listedNames (value : Text) :
    ((listedNames value).map dotted).map internal = listedNames value := by
  rw [List.map_map]
  refine (List.map_congr_left fun name hname => ?_).trans (List.map_id _)
  rw [Function.comp_apply, internal_dotted, internal_of_mem_listedNames hname, id]

/-! ## Answers for a base -/

/-- A listing and an embedded index say the same about a base: there is no row for it, or the listed
names are those that were gathered. -/
def SameAnswer (listed : Option (List Text)) (gathered : Gathered × Bool) (base : Text) : Prop :=
  match listed with
  | none => gathered.2 = false
  | some names => gathered.2 = true ∧ gathered.1.names base = NameSet.ofList (names.map internal)

theorem find?_ofText (flatBase t base : Text) :
    (Listing.ofText .properties flatBase t).find? base =
      ((Properties.read t).get? (dotted base)).map fun value =>
        (listedNames value).map dotted := by
  rw [Listing.find?, dotted_internal, Listing.ofText, Table.get?_mapValues]

theorem gatherKeyed_one_snd : (gatherKeyed t [base] ∅).2 = true ↔
    ∃ key value, (Properties.read t).get? key = some value ∧ internal key.strip = base := by
  rw [gatherKeyed_snd, covers_properties_iff, List.forall_mem_singleton]

theorem mem_gatherKeyed_one : name ∈ (gatherKeyed t [base] ∅).1.names base ↔
    ∃ key value, (Properties.read t).get? key = some value ∧ internal key.strip = base ∧
      name ∈ listedNames value := by
  rw [mem_names_gatherKeyed, mem_listedFor_properties]
  have hempty : name ∉ (∅ : Gathered).names base := NameSet.not_mem_empty name
  simp only [hempty, false_or, List.mem_singleton, true_and, Prod.exists]
  constructor
  · rintro ⟨_, names, hrow, rfl, hname⟩
    obtain ⟨key, value, hget, hkey, rfl⟩ := mem_keyedRows.1 hrow
    exact ⟨key, value, hget, hkey, hname⟩
  · rintro ⟨key, value, hget, hkey, hname⟩
    exact ⟨_, _, mem_keyedRows.2 ⟨key, value, hget, hkey, rfl⟩, rfl, hname⟩

/-- The two say the same about a base exactly if its dotted form, where that is a key, is not
trimmed, and each key that is trimmed to the base adds nothing to what the dotted form has. -/
theorem sameAnswer_iff (flatBase t base : Text) :
    SameAnswer ((Listing.ofText .properties flatBase t).find? base)
        (gatherKeyed t [internal base] ∅) (internal base) ↔
      (∀ own, (Properties.read t).get? (dotted base) = some own →
        (dotted base).strip = dotted base) ∧
      ∀ key value, (Properties.read t).get? key = some value →
        internal key.strip = internal base →
        ∃ own, (Properties.read t).get? (dotted base) = some own ∧
          ∀ name ∈ listedNames value, name ∈ listedNames own := by
  rw [find?_ofText]
  cases hown : (Properties.read t).get? (dotted base) with
  | none =>
    rw [Option.map_none, SameAnswer, ← Bool.not_eq_true, gatherKeyed_one_snd]
    constructor
    · exact fun hnone => ⟨nofun, fun key value hget hkey => absurd ⟨key, value, hget, hkey⟩ hnone⟩
    · rintro ⟨-, hrows⟩ ⟨key, value, hget, hkey⟩
      obtain ⟨_, hsome, -⟩ := hrows key value hget hkey
      cases hsome
  | some own =>
    rw [Option.map_some, SameAnswer, map_internal_dotted_listedNames, gatherKeyed_one_snd]
    constructor
    · rintro ⟨⟨key, value, hget, hkey⟩, hnames⟩
      have hstrip : (dotted base).strip = dotted base :=
        strip_eq_self_of_internal (hkey.trans (internal_dotted base).symm)
      refine ⟨fun _ _ => hstrip, fun key value hget hkey => ⟨own, rfl, fun name hname => ?_⟩⟩
      rw [← NameSet.mem_ofList, ← hnames]
      exact mem_gatherKeyed_one.2 ⟨key, value, hget, hkey, hname⟩
    · rintro ⟨hstrip, hrows⟩
      have hkey : internal (dotted base).strip = internal base := by
        rw [hstrip own rfl, internal_dotted]
      refine ⟨⟨_, own, hown, hkey⟩, NameSet.ext_mem fun name => ?_⟩
      rw [mem_gatherKeyed_one, NameSet.mem_ofList]
      constructor
      · rintro ⟨key, value, hget, hkey, hname⟩
        obtain ⟨_, hsome, hnames⟩ := hrows key value hget hkey
        cases hsome
        exact hnames name hname
      · exact fun hname => ⟨_, own, hown, hkey, hname⟩

/-! ## Flat indices -/

theorem mem_flatLines : name ∈ Listing.flatLines t ↔
    ∃ line ∈ t.lines, line.strip ≠ [] ∧ line.strip = name := by
  simp only [Listing.flatLines, List.mem_filter, List.mem_map, Bool.not_eq_true',
    List.isEmpty_eq_false_iff]
  constructor
  · rintro ⟨⟨line, hline, rfl⟩, hne⟩
    exact ⟨line, hline, hne, rfl⟩
  · rintro ⟨line, hline, hne, rfl⟩
    exact ⟨⟨line, hline, rfl⟩, hne⟩

theorem mem_flatNames : name ∈ flatNames t ↔
    ∃ line ∈ t.lines, line.strip ≠ [] ∧ line.strip.head? ≠ some (CodePoint.ofChar '#') ∧
      internal line.strip = name := by
  rw [flatNames, List.filterMap_map, List.mem_filterMap]
  refine exists_congr fun line => and_congr_right fun _ => ?_
  rw [Function.comp_apply]
  cases line.strip with
  | nil => simp
  | cons c rest => by_cases hc : c = '#' <;> simp [hc]

/-- A name begins with a hash sign exactly if its internal form does. -/
theorem head?_internal : (internal name).head? = some (CodePoint.ofChar '#') ↔
    name.head? = some (CodePoint.ofChar '#') := by
  cases name with
  | nil => exact Iff.rfl
  | cons c rest =>
    change some (if c = '.' then CodePoint.ofChar '/' else c) = _ ↔ some c = _
    split
    · next hc => subst hc; decide
    · exact Iff.rfl

/-- The names of a flat listing and those of a flat embedded index are the same set exactly if no
line begins with a hash sign after its blanks. -/
theorem flat_agree_iff (t base : Text) :
    NameSet.ofList ((Listing.flatLines t).map internal) = (gatherFlat t base ∅).names base ↔
      ∀ line ∈ t.lines, line.strip.head? ≠ some (CodePoint.ofChar '#') := by
  have hgathered (name : Text) : name ∈ (gatherFlat t base ∅).names base ↔ name ∈ flatNames t := by
    rw [mem_names_gatherFlat]
    exact (or_iff_right (NameSet.not_mem_empty name)).trans (and_iff_right rfl)
  have hlisted (name : Text) : name ∈ NameSet.ofList ((Listing.flatLines t).map internal) ↔
      ∃ line ∈ t.lines, line.strip ≠ [] ∧ internal line.strip = name := by
    rw [NameSet.mem_ofList, List.mem_map]
    simp only [mem_flatLines]
    constructor
    · rintro ⟨_, ⟨line, hline, hne, rfl⟩, rfl⟩
      exact ⟨line, hline, hne, rfl⟩
    · rintro ⟨line, hline, hne, rfl⟩
      exact ⟨_, ⟨line, hline, hne, rfl⟩, rfl⟩
  constructor
  · intro heq line hline hhead
    have hne : line.strip ≠ [] := fun hnil => by rw [hnil] at hhead; cases hhead
    have hmem := (hlisted (internal line.strip)).2 ⟨line, hline, hne, rfl⟩
    rw [heq, hgathered, mem_flatNames] at hmem
    obtain ⟨line', -, -, hhead', hsame⟩ := hmem
    exact hhead' (head?_internal.1 (hsame ▸ head?_internal.2 hhead))
  · intro h
    refine NameSet.ext_mem fun name => ?_
    rw [hlisted, hgathered, mem_flatNames]
    refine exists_congr fun line => and_congr_right fun hline => and_congr_right fun _ => ?_
    exact (and_iff_right (h line hline)).symm

/-! ## Both readers -/

/-- Where the two readers agree. In properties shape they say the same about a base exactly if its
dotted form, where that is a key of the text, has no blanks at its ends, and every key that means
the base once it is trimmed and spelled with slashes lists only names that the dotted form lists.
In flat shape they find the same names exactly if no line begins with a hash sign. -/
theorem readers_agree_iff (h : d.HoldsText p t) (base flatBase : Text) :
    (∃ l, load .properties flatBase d p = .ok (some l) ∧
      (SameAnswer (l.find? base) (gatherKeyed t [internal base] ∅) (internal base) ↔
        (∀ own, (Properties.read t).get? (dotted base) = some own →
          (dotted base).strip = dotted base) ∧
        ∀ key value, (Properties.read t).get? key = some value →
          internal key.strip = internal base →
          ∃ own, (Properties.read t).get? (dotted base) = some own ∧
            ∀ name ∈ listedNames value, name ∈ listedNames own)) ∧
    ∃ names, load .flat flatBase d p = .ok (some (Table.empty.insert flatBase names)) ∧
      (NameSet.ofList (names.map internal) = (gatherFlat t base ∅).names base ↔
        ∀ line ∈ t.lines, line.strip.head? ≠ some (CodePoint.ofChar '#')) :=
  ⟨⟨_, load_eq_ofText h .properties flatBase, sameAnswer_iff flatBase t base⟩,
    _, load_eq_ofText h .flat flatBase, flat_agree_iff t base⟩

theorem holdsText_diskHolding (hscalar : ∀ c ∈ t, c.isSurrogate = false)
    (hlookup : ((diskHolding t).lookup ("i" : Text)).toOption =
      some (.file (t.flatMap Utf8.bytesOf))) : (diskHolding t).HoldsText ("i" : Text) t := by
  refine ⟨_, Utf8.encode?_eq_some.2 ⟨hscalar, rfl⟩, ?_⟩
  cases hl : (diskHolding t).lookup ("i" : Text) <;> rw [hl] at hlookup <;> cases hlookup
  rfl

/-- A row under a dotted key. -/
def dottedText : Text := "a.B = a.C, x/Y\n"

theorem readers_agree_dottedText : (diskHolding dottedText).HoldsText ("i" : Text) dottedText ∧
    (∃ l, load .properties [] (diskHolding dottedText) ("i" : Text) = .ok (some l) ∧
      SameAnswer (l.find? "a.B") (gatherKeyed dottedText [internal "a.B"] ∅) (internal "a.B")) ∧
    ∃ names, load .flat [] (diskHolding dottedText) ("i" : Text) =
        .ok (some (Table.empty.insert [] names)) ∧
      NameSet.ofList (names.map internal) = (gatherFlat dottedText "a.B" ∅).names "a.B" := by
  have hholds : (diskHolding dottedText).HoldsText ("i" : Text) dottedText :=
    holdsText_diskHolding (by decide +kernel) (by decide +kernel)
  obtain ⟨⟨l, hload, hkeyed⟩, names, hloadFlat, hflat⟩ := readers_agree_iff hholds "a.B" []
  have hentries : (Properties.read dottedText).entries =
      [(("a.B" : Text), ("a.C, x/Y" : Text))] := by decide +kernel
  have hkeyed : SameAnswer (l.find? "a.B") (gatherKeyed dottedText [internal "a.B"] ∅)
      (internal "a.B") := by
    refine hkeyed.2 ⟨fun _ _ => by decide +kernel, fun key value hget _ => ?_⟩
    have hmem := Table.mem_entries_iff.2 hget
    rw [hentries, List.mem_singleton] at hmem
    cases hmem
    exact ⟨_, hget, fun _ hname => hname⟩
  exact ⟨hholds, ⟨l, hload, hkeyed⟩, names, hloadFlat, hflat.2 (by decide +kernel)⟩

/-- A row under a key with a slash, and a line with a hash sign in a flat index. -/
def slashedText : Text := "a/B=a.C\n"

def hashedText : Text := "# x\na.C"

/-- The listing has no row where the embedded index has one, and a name where that has none. -/
theorem readers_disagree :
    (∃ l, load .properties [] (diskHolding slashedText) ("i" : Text) = .ok (some l) ∧
      l.find? "a.B" = none ∧ (gatherKeyed slashedText [internal "a.B"] ∅).2 = true) ∧
    ∃ names, load .flat "a.B" (diskHolding hashedText) ("i" : Text) =
        .ok (some (Table.empty.insert "a.B" names)) ∧
      NameSet.ofList (names.map internal) ≠
        (gatherFlat hashedText (internal "a.B") ∅).names (internal "a.B") := by
  have hslashed : (diskHolding slashedText).HoldsText ("i" : Text) slashedText :=
    holdsText_diskHolding (by decide +kernel) (by decide +kernel)
  have hhashed : (diskHolding hashedText).HoldsText ("i" : Text) hashedText :=
    holdsText_diskHolding (by decide +kernel) (by decide +kernel)
  exact ⟨⟨_, load_eq_ofText hslashed .properties [], by decide +kernel, by decide +kernel⟩,
    _, load_eq_ofText hhashed .flat "a.B", by decide +kernel⟩

end SubclassIndex.Index
