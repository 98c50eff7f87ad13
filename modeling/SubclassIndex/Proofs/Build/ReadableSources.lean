import SubclassIndex.Build.Run
import SubclassIndex.Proofs.Build.ScanLemmas
import SubclassIndex.Proofs.Settings.AcceptedSettings

/-!
# Builds whose sources can be read

If every archive opens and everything that is read in the sources can be read, then a build ends
with rows (`build_of_readable`). The classes it knows are `knownClasses`: those of the classes
directory and of the archives that are not served from their own index, the first writer of a name
first. Each row holds what the consulted indices list for its base and what descends from it
through the known classes.
-/

namespace SubclassIndex

open Document

section

variable [Zip.Library]

/-- Whether an archive can be read as far as it has to be: the index that is consulted, and the
classes unless the archive is served from the index. -/
structure Dependency.Readable (x : Dependency) (s : Settings) (requested : List Text) : Prop where
  index : ∃ index, x.index? s requested = .ok index
  classes : x.isServed s requested = false → x.harvest.failure = none

instance (x : Dependency) (s : Settings) (requested : List Text) :
    Decidable (x.Readable s requested) :=
  decidable_of_iff ((x.index? s requested).isOk = true ∧
      (x.isServed s requested = false → x.harvest.failure.isNone = true))
    ⟨fun ⟨hi, hc⟩ =>
        ⟨by cases h : x.index? s requested <;> simp_all [Except.isOk, Except.toBool],
          fun hs => Option.isNone_iff_eq_none.1 (hc hs)⟩,
      fun ⟨⟨index, hi⟩, hc⟩ =>
        ⟨by rw [hi]; rfl, fun hs => Option.isNone_iff_eq_none.2 (hc hs)⟩⟩

/-- The archives of some settings, opened. There are none where one of them does not open. -/
def archivesOn (s : Settings) (d : Disk) : List Dependency :=
  match s.archives.mapM (openedArchive d) with
  | .ok xs => xs
  | .error _ => []

theorem mapM_openedArchive {s : Settings} {d : Disk}
    (h : (s.archives.mapM (openedArchive d)).isOk = true) :
    s.archives.mapM (openedArchive d) = .ok (archivesOn s d) := by
  unfold archivesOn
  split
  · next heq => exact heq
  · next heq =>
    rw [heq] at h
    cases h

/-- The archives of which the classes are read. -/
def scannedAmong (s : Settings) (requested : List Text) (xs : List Dependency) : List Dependency :=
  xs.filter fun x => !x.isServed s requested

/-- What the classes directory supplies. -/
def ClassDirectory.source (classes : ClassDirectory) (d : Disk) : Source :=
  ⟨classes.label, (classes.harvest d).headers⟩

/-- What the classes directory and some archives supply. -/
def allSources (s : Settings) (d : Disk) (xs : List Dependency) : List Source :=
  (⟨s.classesPath⟩ : ClassDirectory).source d :: xs.map Dependency.source

/-- The classes that a build knows in the end. -/
def knownClasses (s : Settings) (d : Disk) (xs : List Dependency) : HeaderStore :=
  .ofSources (allSources s d (scannedAmong s s.requestedBases xs))

/-- The settings are accepted, with a base; the classes directory exists, the archives open, and
all that is read can be read. -/
structure ReadableSources (s : Settings) (d : Disk) (xs : List Dependency) : Prop where
  accepted : s.fault? = none
  bases : s.baseClasses ≠ []
  directory : d.isDirectory s.classesPath = .ok true
  classes : ((⟨s.classesPath⟩ : ClassDirectory).harvest d).failure = none
  archives : s.archives.mapM (openedArchive d) = .ok xs
  readable : ∀ x ∈ xs, x.Readable s s.requestedBases

/-- That sources can be read is found by evaluation. -/
theorem readableSources_of_checks {s : Settings} {d : Disk}
    (h : s.fault? = none ∧ s.baseClasses ≠ [] ∧
      (d.isDirectory s.classesPath).toOption = some true ∧
      ((⟨s.classesPath⟩ : ClassDirectory).harvest d).failure = none ∧
      (s.archives.mapM (openedArchive d)).isOk = true ∧
      ∀ x ∈ archivesOn s d, x.Readable s s.requestedBases) :
    ReadableSources s d (archivesOn s d) := by
  obtain ⟨accepted, bases, directory, classes, archives, readable⟩ := h
  refine ⟨accepted, bases, ?_, classes, mapM_openedArchive archives, readable⟩
  cases hd : d.isDirectory s.classesPath <;> rw [hd] at directory <;> cases directory
  rfl

end

/-! ## Requested bases -/

theorem nodup_eraseDups (ts : List Text) : ts.eraseDups.Nodup := by
  generalize hn : ts.length = n
  induction n using Nat.strongRecOn generalizing ts with
  | ind n ih =>
    subst hn
    cases ts with
    | nil => exact .nil
    | cons t ts =>
      have hlen := List.length_filter_le (fun b => !b == t) ts
      rw [List.eraseDups_cons, List.nodup_cons]
      exact ⟨by simp, ih _ (by rw [List.length_cons]; omega) _ rfl⟩

namespace Settings

variable {s : Settings}

theorem nodup_requestedBases : s.requestedBases.Nodup := nodup_eraseDups _

theorem mem_requestedBases {base : Text} :
    base ∈ s.requestedBases ↔ ∃ b ∈ s.baseClasses, ClassName.internal b = base := by
  rw [requestedBases, List.mem_eraseDups, List.mem_map]

theorem internal_mem_requestedBases {base : Text} (h : base ∈ s.baseClasses) :
    ClassName.internal base ∈ s.requestedBases := mem_requestedBases.2 ⟨base, h, rfl⟩

theorem requestedBases_ne_nil (h : s.baseClasses ≠ []) : s.requestedBases ≠ [] := by
  obtain ⟨base, hb⟩ := List.exists_mem_of_ne_nil _ h
  exact List.ne_nil_of_mem (internal_mem_requestedBases hb)

theorem requestedBases_eq_singleton {base : Text} (h : s.fault? = none) (hflat : s.shape = .flat)
    (hb : base ∈ s.baseClasses) : s.requestedBases = [ClassName.internal base] := by
  have hmem := internal_mem_requestedBases hb
  have hlen := length_requestedBases_le h hflat
  obtain ⟨b, hone⟩ := List.length_eq_one_iff.1 (Nat.le_antisymm hlen (List.length_pos_of_mem hmem))
  rw [hone] at hmem ⊢
  rw [List.mem_singleton.1 hmem]

end Settings

/-! ## Scanning -/

namespace BuildContext

variable {c c' c'' : BuildContext} {s : Settings} {d : Disk} {x : Dependency}
  {xs xs' : List Dependency} {archive : Value} {archives : List Value}

section

variable [Zip.Library]

/-- What a context has become once some archives are scanned. -/
structure Scanned (s : Settings) (xs : List Dependency) (c c' : BuildContext) : Prop where
  requested : c'.requested = c.requested
  headers : c'.headers =
    c.headers.addSources ((scannedAmong s c.requested xs).map Dependency.source)
  embedded : ∀ base ∈ c.requested, ∀ name, name ∈ c'.embedded.names base ↔
    name ∈ c.embedded.names base ∨ ∃ x ∈ xs, x.Lists s c.requested base name

theorem Scanned.nil : Scanned s [] c c where
  requested := rfl
  headers := rfl
  embedded := fun _ _ _ => by simp

theorem Scanned.append (h : Scanned s xs c c') (h' : Scanned s xs' c' c'') :
    Scanned s (xs ++ xs') c c'' where
  requested := h'.requested.trans h.requested
  headers := by
    rw [h'.headers, h.headers, h.requested, scannedAmong, scannedAmong, scannedAmong,
      List.filter_append, List.map_append, HeaderStore.addSources_append]
  embedded := fun base hb name => by
    have h' := h'.embedded base (h.requested ▸ hb) name
    rw [h.requested, h.embedded base hb name] at h'
    rw [h', or_assoc]
    simp only [List.mem_append, or_and_right, exists_or]

theorem scannedAmong_singleton {requested : List Text} (x : Dependency) :
    scannedAmong s requested [x] = if x.isServed s requested then [] else [x] := by
  cases h : x.isServed s requested <;> simp [scannedAmong, h]

/-- Reading a readable archive adds its classes or the names in its index. -/
theorem scanArchive_of_readable (ho : openedArchive d archive = .ok x)
    (hx : x.Readable s c.requested) (hflat : s.shape = .flat → c.requested.length ≤ 1) :
    ∃ c', c.scanArchive s d archive = (c', none) ∧ Scanned s [x] c c' := by
  obtain ⟨listed, rfl, hscan⟩ := scanArchive_of_opened (c := c) (s := s) ho
  obtain ⟨index, hi⟩ := hx.index
  rw [hscan]
  cases index with
  | none =>
    have hserved : x.isServed s c.requested = false := by rw [Dependency.isServed, hi]
    obtain ⟨notes, hread⟩ := read_of_none listed hi
    rw [hread, hx.classes hserved]
    refine ⟨_, rfl, rfl, ?_, fun base hb name => ?_⟩
    · rw [scannedAmong_singleton, hserved, if_neg Bool.false_ne_true]
      rfl
    · simp [Dependency.Lists, hi]
  | some text =>
    have hserved : x.isServed s c.requested = Index.covers s.shape c.requested text := by
      rw [Dependency.isServed, hi]
    have hlists : ∀ base name, x.Lists s c.requested base name ↔
        name ∈ Index.listedFor s.shape text base := by
      simp [Dependency.Lists, hi]
    have hreads : ∀ base ∈ c.requested, base ∈ Index.basesRead s.shape c.requested :=
      fun _ => (Index.mem_basesRead_iff hflat).2
    obtain ⟨notes, hread⟩ := read_of_some listed hi
    rw [hread]
    split
    · next hcov =>
      refine ⟨_, rfl, by rw [gather_fst], ?_, fun base hb name => ?_⟩
      · rw [scannedAmong_singleton, if_pos (hserved.trans hcov), gather_fst]
        rfl
      · simp only [List.mem_singleton, exists_eq_left, hlists]
        exact mem_names_gather.trans (or_congr_right (and_iff_right (hreads base hb)))
    · next hcov =>
      have hserved := hserved.trans (Bool.eq_false_iff.2 hcov)
      rw [hx.classes hserved]
      refine ⟨_, rfl, by rw [gather_fst]; rfl, ?_, fun base hb name => ?_⟩
      · rw [scannedAmong_singleton, hserved, if_neg Bool.false_ne_true, gather_fst]
        rfl
      · simp only [List.mem_singleton, exists_eq_left, hlists]
        exact mem_names_gather.trans (or_congr_right (and_iff_right (hreads base hb)))

theorem scanArchives_of_readable (ho : archives.mapM (openedArchive d) = .ok xs)
    (hx : ∀ x ∈ xs, x.Readable s c.requested) (hflat : s.shape = .flat → c.requested.length ≤ 1) :
    ∃ c', c.scanArchives s d archives = (c', none) ∧ Scanned s xs c c' := by
  induction archives generalizing c xs with
  | nil =>
    cases ho
    exact ⟨c, rfl, .nil⟩
  | cons archive archives ih =>
    rw [List.mapM_cons] at ho
    cases hx₀ : openedArchive d archive with
    | error e =>
      rw [hx₀] at ho
      cases ho
    | ok x =>
      cases hxs : archives.mapM (openedArchive d) with
      | error e =>
        rw [hx₀, hxs] at ho
        cases ho
      | ok xs' =>
        rw [hx₀, hxs] at ho
        cases ho
        obtain ⟨c', hscan, h⟩ := scanArchive_of_readable hx₀ (hx x List.mem_cons_self) hflat
        -- whether an archive is readable depends on the requested bases alone, and they stay
        rw [← h.requested] at hx hflat
        obtain ⟨c'', hscan', h'⟩ := ih hxs (fun y hy => hx y (List.mem_cons_of_mem _ hy)) hflat
        refine ⟨c'', ?_, h.append h'⟩
        rw [scanArchives, hscan]
        exact hscan'

/-- What a context that knew nothing has become once all sources are collected. -/
theorem collect_of_readable (h : ReadableSources s d xs) :
    ∃ c', collect { requested := s.requestedBases } s d ⟨s.classesPath⟩ = (c', none) ∧
      c'.requested = s.requestedBases ∧ c'.headers = knownClasses s d xs ∧
      ∀ base ∈ s.requestedBases, ∀ name, name ∈ c'.embedded.names base ↔
        ∃ x ∈ xs, x.Lists s s.requestedBases base name := by
  let classes : ClassDirectory := ⟨s.classesPath⟩
  let own : BuildContext := withSource { requested := s.requestedBases } (classes.source d)
  have hown : absorb { requested := s.requestedBases } (classes.harvest d) classes.label =
      (own, none) := by
    rw [← h.classes]
    rfl
  obtain ⟨c', hscan, hc⟩ := scanArchives_of_readable (c := own) h.archives h.readable
    (Settings.length_requestedBases_le h.accepted)
  refine ⟨c'.inform ("headers size = " ++ Text.ofNat c'.headers.size), ?_, hc.requested,
    hc.headers, fun base hb name => ?_⟩
  · unfold collect
    rw [hown]
    simp only
    rw [hscan]
  · refine (hc.embedded base hb name).trans (or_iff_right ?_)
    exact NameSet.not_mem_empty name

end

/-! ## Resolving -/

/-- The rows of a context: its implementations of each requested base. -/
def rows (c : BuildContext) : Index.Rows :=
  c.requested.foldl (fun rows base => rows.insert base (c.implementations base).names) ∅

/-- Resolving writes the rows and touches only the notes. -/
theorem resolve_eq (c : BuildContext) : ∃ notes, c.resolve = ({ c with notes }, c.rows) := by
  suffices h : ∀ (bases : List Text) (notes : List Note) (rows : Index.Rows), ∃ notes',
      bases.foldl (fun (acc : BuildContext × Index.Rows) base =>
        (acc.1.inform ("services found for " ++ ClassName.dotted base ++ " = " ++
          Text.ofNat (acc.1.implementations base).size),
          acc.2.insert base (acc.1.implementations base).names)) ({ c with notes }, rows) =
      ({ c with notes := notes' },
        bases.foldl (fun rows base => rows.insert base (c.implementations base).names) rows) from
    h c.requested c.notes ∅
  -- notes are the only part of a context that changes, and implementations do not read them
  intro bases
  induction bases with
  | nil => exact fun notes rows => ⟨notes, rfl⟩
  | cons base bases ih => exact fun notes rows => ih _ _

theorem keys_rows (h : c.requested.Nodup) : c.rows.keys = c.requested :=
  Table.keys_foldl_insert (fun base => (c.implementations base).names) c.requested ∅ h
    fun _ _ hk => List.not_mem_nil hk

theorem get?_rows {base : Text} (hb : base ∈ c.requested) :
    c.rows.get? base = some (c.implementations base).names := by
  rw [rows, Table.get?_foldl_insert (fun base => (c.implementations base).names), if_pos hb]

end BuildContext

/-! ## Building -/

variable {s : Settings} {d : Disk} {xs : List Dependency}

theorem ClassDirectory.isThere_eq_true {classes : ClassDirectory} :
    classes.isThere d = .ok true ↔ d.isDirectory classes.root = .ok true := by
  unfold isThere
  cases d.isDirectory classes.root <;> simp

/-- What a build comes to whose sources are all collected. -/
def BuildContext.result (c : BuildContext) : BuildResult where
  rows := c.rows
  headerCount := c.headers.size
  skipped := c.skipped
  served := c.served

variable [Zip.Library]

theorem build_of_collect {c : BuildContext} (hdirectory : d.isDirectory s.classesPath = .ok true)
    (hbases : s.requestedBases ≠ [])
    (h : BuildContext.collect { requested := s.requestedBases } s d ⟨s.classesPath⟩ = (c, none)) :
    (build s d).value = .ok (some c.result) := by
  have hthere : (⟨s.classesPath⟩ : ClassDirectory).isThere d = .ok true :=
    ClassDirectory.isThere_eq_true.2 hdirectory
  have hempty : s.requestedBases.isEmpty = false := List.isEmpty_eq_false_iff.2 hbases
  obtain ⟨notes, hresolve⟩ := c.resolve_eq
  simp only [build, hthere, hempty, Bool.false_eq_true, if_false, h, hresolve, BuildContext.result]

/-- A build of readable sources ends with the rows that the consulted indices and the known classes
give. -/
theorem build_of_readable (h : ReadableSources s d xs) : ∃ r : BuildResult,
    (build s d).value = .ok (some r) ∧ r.headerCount = (knownClasses s d xs).size ∧
    r.rows.keys = s.requestedBases ∧
    ∀ base ∈ s.requestedBases, ∃ found : NameSet, r.rows.get? base = some found.names ∧
      ∀ name, name ∈ found ↔ (∃ x ∈ xs, x.Lists s s.requestedBases base name) ∨
        name ∈ (descendants (knownClasses s d xs) base ∅).1 := by
  obtain ⟨c, hcollect, hrequested, hheaders, hembedded⟩ := BuildContext.collect_of_readable h
  refine ⟨c.result,
    build_of_collect h.directory (Settings.requestedBases_ne_nil h.bases) hcollect, ?_, ?_,
    fun base hb => ⟨c.implementations base, ?_, ?_⟩⟩
  · rw [← hheaders]
    rfl
  · rw [← hrequested]
    exact BuildContext.keys_rows (hrequested ▸ Settings.nodup_requestedBases)
  · exact BuildContext.get?_rows (hrequested ▸ hb)
  · intro name
    rw [BuildContext.implementations, NameSet.mem_union, hembedded base hb, hheaders]

end SubclassIndex
