import SubclassIndex.Proofs.Build.AtomicWrite
import SubclassIndex.Proofs.Build.ConcreteRows
import SubclassIndex.Proofs.Build.ReadableSources
import SubclassIndex.Proofs.Index.RoundTrip
import SubclassIndex.Proofs.Properties.EscapeLemmas

/-!
# Rows that can be written

Whatever bytes an embedded index has, a name that it lists can be written again, unless an escape in
the index names a surrogate. `run_completes_iff` says that a run of readable sources whose output
file can be replaced comes to its end exactly if no consulted index lists such a name.
-/

namespace SubclassIndex

open Index

variable {s : Settings} {d : Disk} {xs : List Dependency} {rows : Rows} {shape : Shape}

namespace Index

/-- An index can be written exactly if the names in it can, where the bases can. -/
theorem isScalar_render (hbases : ∀ row ∈ rows.entries, row.1.IsScalar) :
    (render rows shape).IsScalar ↔ ∀ row ∈ rows.entries, ∀ name ∈ row.2, name.IsScalar := by
  have hsorted : ∀ names : List Text,
      (∀ name ∈ dottedSorted names, name.IsScalar) ↔ ∀ name ∈ names, name.IsScalar := by
    intro names
    refine ⟨fun h name hn => Text.isScalar_dotted.1 (h _ (mem_dottedSorted.2 ⟨name, hn, rfl⟩)),
      fun h name hn => ?_⟩
    obtain ⟨n, hmem, rfl⟩ := mem_dottedSorted.1 hn
    exact Text.isScalar_dotted.2 (h n hmem)
  cases shape with
  | properties =>
    refine Text.isScalar_flatMap.trans (forall₂_congr fun row hrow => ?_)
    have hbase := Text.isScalar_dotted.2 (hbases row hrow)
    rw [rowLine, Text.isScalar_append, Text.isScalar_append, Text.isScalar_append,
      Text.isScalar_join (by decide), hsorted]
    exact ⟨fun h => h.1.2, fun h => ⟨⟨⟨hbase, by decide⟩, h⟩, by decide⟩⟩
  | flat =>
    refine (Text.isScalar_join (by decide)).trans ((hsorted _).trans ?_)
    refine ⟨fun h row hrow name hn => h name (mem_allNames.2 ⟨row, hrow, hn⟩), fun h name hn => ?_⟩
    obtain ⟨row, hrow, hmem⟩ := mem_allNames.1 hn
    exact h row hrow name hmem

end Index

/-! ## Embedded indices -/

namespace Dependency

variable [Zip.Library]

variable {x : Dependency} {requested : List Text} {base name text : Text}

theorem isScalar_of_index? (h : x.index? s requested = .ok (some text)) : text.IsScalar := by
  unfold index? text? at h
  split at h
  · cases h
  · split at h
    · cases h
    · split at h
      · cases h
      · split at h <;> cases h
        exact .decodeLossy _

/-- Only a surrogate that an escape names comes from an embedded index. -/
theorem isScalar_of_lists (h : x.Lists s requested base name)
    (hescapes : ∀ text, x.index? s requested = .ok (some text) →
      ∀ line ∈ Properties.logicalLines text.lines, ¬Properties.NamesSurrogate line) :
    name.IsScalar := by
  obtain ⟨text, hindex, hname⟩ := h
  exact isScalar_of_mem_listedFor (isScalar_of_index? hindex) (hescapes text hindex) hname

end Dependency

/-! ## Runs -/

theorem HeaderStore.mem_keys_of_header? {store : HeaderStore} {name : Text} {header : Header}
    (h : store.header? name = some header) : name ∈ store.keys := by
  obtain ⟨known, hget, -⟩ := Option.map_eq_some_iff.1 h
  exact List.mem_map_of_mem (Table.mem_entries_iff.2 hget)

section

variable [Zip.Library]

/-- The rows of readable sources can be written exactly if the listed names can. -/
theorem build_of_scalar (h : ReadableSources s d xs)
    (hbases : ∀ base ∈ s.baseClasses, base.IsScalar)
    (hnames : ∀ name ∈ (knownClasses s d xs).keys, name.IsScalar) :
    ∃ r : BuildResult, (build s d).value = .ok (some r) ∧ r.rows.isEmpty = false ∧
      ((render r.rows s.shape).IsScalar ↔ ∀ base ∈ s.requestedBases, ∀ x ∈ xs, ∀ name,
        x.Lists s s.requestedBases base name → name.IsScalar) := by
  obtain ⟨r, hbuild, -, hkeys, hrows⟩ := build_of_readable h
  have hmem : ∀ row ∈ r.rows.entries, row.1 ∈ s.requestedBases := fun row hrow =>
    hkeys ▸ List.mem_map_of_mem hrow
  refine ⟨r, hbuild, ?_,
    (isScalar_render fun row hrow => ?_).trans ⟨fun hall => ?_, fun hall => ?_⟩⟩
  · obtain ⟨base, hbase⟩ := List.exists_mem_of_ne_nil _ (Settings.requestedBases_ne_nil h.bases)
    obtain ⟨found, hget, -⟩ := hrows base hbase
    rw [Table.isEmpty, List.isEmpty_eq_false_iff]
    exact List.ne_nil_of_mem (Table.mem_entries_iff.2 hget)
  · obtain ⟨base, hbase, heq⟩ := Settings.mem_requestedBases.1 (hmem row hrow)
    exact heq ▸ Text.isScalar_internal.2 (hbases base hbase)
  · intro base hbase x hx name hlists
    obtain ⟨found, hget, hfound⟩ := hrows base hbase
    exact hall (base, found.names) (Table.mem_entries_iff.2 hget) name
      ((hfound name).2 (.inl ⟨x, hx, hlists⟩))
  · intro row hrow name hname
    obtain ⟨found, hget, hfound⟩ := hrows row.1 (hmem row hrow)
    have heq := Option.some.inj (hget.symm.trans (Table.mem_entries_iff.1 hrow))
    have hlisted : name ∈ found.names := heq ▸ hname
    rcases (hfound name).1 hlisted with ⟨x, hx, hlists⟩ | hdescends
    · exact hall row.1 (hmem row hrow) x hx name hlists
    · obtain ⟨header, hheader, -⟩ := exists_header_of_mem_descendants hdescends
      exact hnames name (HeaderStore.mem_keys_of_header? hheader)

/-- A build that does not come to its archives ends without rows. -/
theorem build_without_rows (h : ¬(d.isDirectory s.classesPath = .ok true ∧ s.baseClasses ≠ []))
    (hclasses : ((⟨s.classesPath⟩ : ClassDirectory).harvest d).failure = none) :
    ∃ result, (build s d).value = .ok result ∧ ∀ r, result = some r → r.rows.isEmpty = true := by
  unfold build
  dsimp only
  split
  · next e hthere =>
    rw [ClassDirectory.harvest, hthere] at hclasses
    cases hclasses
  · exact ⟨none, rfl, nofun⟩
  · next hthere =>
    have hdirectory : d.isDirectory s.classesPath = .ok true :=
      ClassDirectory.isThere_eq_true.1 hthere
    have hnone : s.requestedBases = [] := by
      have hbases : s.baseClasses = [] := by
        by_contra hbases
        exact h ⟨hdirectory, hbases⟩
      rw [Settings.requestedBases, hbases]
      rfl
    rw [hnone]
    refine ⟨some {}, rfl, fun r hr => ?_⟩
    cases hr
    rfl

/-- The settings are accepted, all that is read in the sources can be read, no base and no class has
a surrogate in its name, and the output file can be replaced. -/
structure ScalarSources (s : Settings) (d : Disk) (xs : List Dependency) : Prop where
  accepted : s.fault? = none
  classes : ((⟨s.classesPath⟩ : ClassDirectory).harvest d).failure = none
  archives : s.archives.mapM (openedArchive d) = .ok xs
  readable : ∀ x ∈ xs, x.Readable s s.requestedBases
  bases : ∀ base ∈ s.baseClasses, base.IsScalar
  names : ∀ name ∈ (knownClasses s d xs).keys, name.IsScalar
  output : d.CanReplace s.outputFile

/-- That sources are scalar is found by evaluation. -/
theorem scalarSources_of_checks (h : s.fault? = none ∧
      ((⟨s.classesPath⟩ : ClassDirectory).harvest d).failure = none ∧
      (s.archives.mapM (openedArchive d)).isOk = true ∧
      (∀ x ∈ archivesOn s d, x.Readable s s.requestedBases) ∧
      (∀ base ∈ s.baseClasses, base.IsScalar) ∧
      (∀ name ∈ (knownClasses s d (archivesOn s d)).keys, name.IsScalar) ∧
      d.CanReplace s.outputFile) : ScalarSources s d (archivesOn s d) := by
  obtain ⟨accepted, classes, archives, readable, bases, names, output⟩ := h
  exact ⟨accepted, classes, mapM_openedArchive archives, readable, bases, names, output⟩

/-- A run of such sources comes to its end exactly if no consulted index lists a name with a
surrogate; otherwise the index cannot be written. A surrogate is listed only where an escape in the
index names it. -/
theorem run_completes_iff (h : ScalarSources s d xs) :
    ((∃ report, (run s d).2.value = .ok report) ↔
      (d.isDirectory s.classesPath = .ok true → ∀ base ∈ s.requestedBases, ∀ x ∈ xs, ∀ name,
        x.Lists s s.requestedBases base name → name.IsScalar)) ∧
    (∀ e, (run s d).2.value = .error e → e = .disk .unencodable s.outputFile) ∧
    ((∀ x ∈ xs, ∀ text, x.index? s s.requestedBases = .ok (some text) →
        ∀ line ∈ Properties.logicalLines text.lines, ¬Properties.NamesSurrogate line) →
      ∃ report, (run s d).2.value = .ok report) := by
  suffices hiff : ((∃ report, (run s d).2.value = .ok report) ↔
      (d.isDirectory s.classesPath = .ok true → ∀ base ∈ s.requestedBases, ∀ x ∈ xs, ∀ name,
        x.Lists s s.requestedBases base name → name.IsScalar)) ∧
      ∀ e, (run s d).2.value = .error e → e = .disk .unencodable s.outputFile from
    ⟨hiff.1, hiff.2, fun hescapes => hiff.1.2 fun _ base _ x hx name hlists =>
      Dependency.isScalar_of_lists hlists (hescapes x hx)⟩
  by_cases hrows : d.isDirectory s.classesPath = .ok true ∧ s.baseClasses ≠ []
  · obtain ⟨hdirectory, hne⟩ := hrows
    obtain ⟨r, hbuild, hrows, hscalar⟩ := build_of_scalar
      ⟨h.accepted, hne, hdirectory, h.classes, h.archives, h.readable⟩ h.bases h.names
    obtain ⟨-, hvalue⟩ := run_of_rows hbuild hrows
    obtain ⟨hrefused, hwritten⟩ :=
      Disk.replaceIfChanged_of_canReplace h.output (render r.rows s.shape)
    rw [Text.encode?_eq_none_iff] at hrefused
    rw [Ne, Text.encode?_eq_none_iff, not_not] at hwritten
    by_cases hlisted : (render r.rows s.shape).IsScalar
    · obtain ⟨written, houtcome⟩ := hwritten hlisted
      rw [houtcome] at hvalue
      refine ⟨⟨fun _ _ => hscalar.1 hlisted, fun _ => ⟨_, hvalue⟩⟩, fun e he => ?_⟩
      cases hvalue.symm.trans he
    · rw [hrefused hlisted] at hvalue
      refine ⟨⟨fun ⟨report, hreport⟩ => ?_, fun hall => ?_⟩, fun e he => ?_⟩
      · cases hvalue.symm.trans hreport
      · exact absurd (hscalar.2 (hall hdirectory)) hlisted
      · cases hvalue.symm.trans he
        rfl
  · -- the build ends before it comes to the archives, and nothing is written
    obtain ⟨result, hbuild, hempty⟩ := build_without_rows hrows h.classes
    obtain ⟨-, hvalue⟩ := run_of_no_rows hbuild hempty
    refine ⟨⟨fun _ hdirectory base hbase => ?_, fun _ => ⟨_, hvalue⟩⟩, fun e he => ?_⟩
    · obtain ⟨b, hb, -⟩ := Settings.mem_requestedBases.1 hbase
      exact absurd ⟨hdirectory, List.ne_nil_of_mem hb⟩ hrows
    · cases hvalue.symm.trans he

end

/-! ## Two indices -/

/-- A disk with a class of its own, and an archive with some bytes as its index. -/
def indexedDisk (index : Bytes) : Disk :=
  smallDisk [("L.class", ClassFile.childOf "a/C" 33)] [("x", Zip.pack [⟨"i", index, 0⟩])]

/-- An index that is not UTF-8. -/
def undecodableIndex : Bytes := ("a.B=l.M" : Text).flatMap Utf8.bytesOf ++ [0xFF]

/-- An index that writes one letter by the two halves of its UTF-16 form. -/
def pairedIndex : Bytes := ("a.B=\\uD83D\\uDE00" : Text).flatMap Utf8.bytesOf

theorem scalarSources_indexedDisk {index : Bytes}
    (h : index = undecodableIndex ∨ index = pairedIndex) :
    ScalarSources smallSettings (indexedDisk index)
      (archivesOn smallSettings (indexedDisk index)) := by
  refine scalarSources_of_checks ?_
  rcases h with rfl | rfl <;> decide +kernel

/-- Bytes that are not UTF-8 are replaced, and the run comes to its end. -/
theorem run_completes_undecodableIndex :
    ∃ report, (run smallSettings (indexedDisk undecodableIndex)).2.value = .ok report := by
  refine (run_completes_iff (scalarSources_indexedDisk (.inl rfl))).2.2 ?_
  intro x hx text hindex line hline
  have hplain : ∀ x ∈ archivesOn smallSettings (indexedDisk undecodableIndex),
      ((x.index? smallSettings smallSettings.requestedBases).toOption.bind id).all
        (fun (text : Text) => decide (∀ line ∈ Properties.logicalLines text.lines,
          CodePoint.ofChar '\\' ∉ line)) = true := by decide +kernel
  have hline' := hplain x hx
  rw [hindex] at hline'
  exact Properties.not_namesSurrogate (of_decide_eq_true hline' line hline)

/-- The two halves stay surrogates, and the index cannot be written. -/
theorem run_pairedIndex :
    ScalarSources smallSettings (indexedDisk pairedIndex)
        (archivesOn smallSettings (indexedDisk pairedIndex)) ∧
      smallSettings.shape = .properties ∧ smallSettings.usePrecomputed = true ∧
      (run smallSettings (indexedDisk pairedIndex)).2.value =
        .error (.disk .unencodable smallSettings.outputFile) := by
  refine ⟨scalarSources_indexedDisk (.inr rfl), rfl, rfl, ?_⟩
  have hfailure : (match (run smallSettings (indexedDisk pairedIndex)).2.value with
      | .ok _ => none
      | .error e => some e) = some (.disk .unencodable smallSettings.outputFile) := by
    decide +kernel
  split at hfailure
  · cases hfailure
  · next heq =>
    rw [heq, Option.some.inj hfailure]

end SubclassIndex
