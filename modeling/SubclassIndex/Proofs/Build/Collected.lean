import SubclassIndex.Proofs.Build.ReadableSources

/-!
# What any build collects and any run saves

A build may skip archives and still end with rows. Whatever becomes of the archives, the requested
bases stay, and the gathered names are those that the consulted indices list (`Gained`): an archive
that is skipped later gives them too. `build_eq_some` says what the result of a build is made of,
and `run_eq_ok` and `run_eq_error` say what a run makes of it.
-/

namespace SubclassIndex

open Document

variable [Zip.Library]

variable {s : Settings} {d : Disk} {c c' c'' : BuildContext} {x : Dependency}
  {archive : Value} {archives archives' : List Value} {base name listed : Text}
  {requested : List Text} {r : BuildResult}

/-- A name that the consulted index of one of some archives lists for a base. -/
def ListedAmong (s : Settings) (d : Disk) (archives : List Value) (requested : List Text)
    (base name : Text) : Prop :=
  ∃ archive ∈ archives, ∃ x, openedArchive d archive = .ok x ∧ x.Lists s requested base name

theorem listedAmong_append : ListedAmong s d (archives ++ archives') requested base name ↔
    ListedAmong s d archives requested base name ∨
      ListedAmong s d archives' requested base name := by
  simp only [ListedAmong, List.mem_append, or_and_right, exists_or]

/-- The context of a build when its last source has been collected or a source has failed. -/
def collectedOn (s : Settings) (d : Disk) : BuildContext :=
  (BuildContext.collect { requested := s.requestedBases } s d ⟨s.classesPath⟩).1

namespace BuildContext

/-- What a context has gained by scanning some archives, as far as the requested bases and the
gathered names go. -/
structure Gained (s : Settings) (d : Disk) (archives : List Value) (c c' : BuildContext) :
    Prop where
  requested : c'.requested = c.requested
  embedded : ∀ base name, name ∈ c'.embedded.names base ↔ name ∈ c.embedded.names base ∨
    base ∈ Index.basesRead s.shape c.requested ∧ ListedAmong s d archives c.requested base name

theorem Gained.nil : Gained s d [] c c where
  requested := rfl
  embedded := fun _ _ => by simp [ListedAmong]

theorem Gained.append (h : Gained s d archives c c') (h' : Gained s d archives' c' c'') :
    Gained s d (archives ++ archives') c c'' where
  requested := h'.requested.trans h.requested
  embedded := fun base name => by
    rw [h'.embedded, h.embedded, h.requested, listedAmong_append, and_or_left, or_assoc]

theorem requested_read (c : BuildContext) (s : Settings) (x : Dependency) (listed : Text) :
    (c.read s x listed).1.requested = c.requested := by
  cases hi : x.index? s c.requested with
  | error e => rw [read_of_error listed hi]
  | ok index =>
    cases index with
    | none =>
      obtain ⟨notes, hread⟩ := read_of_none listed hi
      rw [hread]
      rfl
    | some text =>
      obtain ⟨notes, hread⟩ := read_of_some listed hi
      rw [hread, gather_fst]
      split <;> rfl

/-- Reading an archive gathers what its consulted index lists, whether or not its classes are read
after that. -/
theorem mem_names_read : name ∈ (c.read s x listed).1.embedded.names base ↔
    name ∈ c.embedded.names base ∨
      base ∈ Index.basesRead s.shape c.requested ∧ x.Lists s c.requested base name := by
  have hlists : ∀ index, x.index? s c.requested = index → (x.Lists s c.requested base name ↔
      ∃ text, index = .ok (some text) ∧ name ∈ Index.listedFor s.shape text base) := by
    rintro index rfl
    exact Iff.rfl
  cases hi : x.index? s c.requested with
  | error e =>
    rw [read_of_error listed hi, hlists _ hi]
    simp
  | ok index =>
    cases index with
    | none =>
      obtain ⟨notes, hread⟩ := read_of_none listed hi
      rw [hread, hlists _ hi]
      simp
    | some text =>
      obtain ⟨notes, hread⟩ := read_of_some listed hi
      have hembedded : (c.read s x listed).1.embedded = (c.gather s.shape text).1.embedded := by
        rw [hread]
        split <;> rfl
      rw [hembedded, mem_names_gather, hlists _ hi]
      simp

theorem gained_scanArchive (c : BuildContext) (s : Settings) (d : Disk) (archive : Value) :
    Gained s d [archive] c (c.scanArchive s d archive).1 := by
  cases ho : openedArchive d archive with
  | error e =>
    obtain ⟨skipped, notes, hscan⟩ := scanArchive_fst_of_unopened (c := c) (s := s) ho
    rw [hscan]
    refine ⟨rfl, fun base name => ?_⟩
    simp [ListedAmong, ho]
  | ok x =>
    obtain ⟨listed, skipped, notes, hscan⟩ := scanArchive_fst_of_opened (c := c) (s := s) ho
    rw [hscan]
    refine ⟨requested_read c s x listed, fun base name => ?_⟩
    refine mem_names_read.trans ?_
    simp [ListedAmong, ho]

theorem gained_scanArchives (h : c.scanArchives s d archives = (c', none)) :
    Gained s d archives c c' := by
  induction archives generalizing c with
  | nil =>
    cases h
    exact .nil
  | cons archive archives ih =>
    have hstep := gained_scanArchive c s d archive
    unfold scanArchives at h
    split at h
    · next c₁ hscan =>
      rw [hscan] at hstep
      exact hstep.append (ih h)
    · next hfailed => exact absurd h (hfailed c')

theorem gained_collect {classes : ClassDirectory} (h : c.collect s d classes = (c', none)) :
    Gained s d s.archives c c' := by
  unfold collect at h
  split at h
  · cases h
  · next own hown =>
    have hown : own.requested = c.requested ∧ own.embedded = c.embedded := by
      rw [← show _ = own from congrArg Prod.fst hown]
      exact ⟨rfl, rfl⟩
    split at h
    · cases h
    · next hscan =>
      cases h
      have hgained := gained_scanArchives hscan
      refine ⟨hgained.requested.trans hown.1, fun base name => ?_⟩
      rw [← hown.1, ← hown.2]
      exact hgained.embedded base name

end BuildContext

/-- A build that ends with a result has found the classes directory. It is empty because no base is
requested, or is the result of the context that it has collected. -/
theorem build_eq_some (h : (build s d).value = .ok (some r)) :
    d.isDirectory s.classesPath = .ok true ∧
      ((s.requestedBases = [] ∧ r = {}) ∨
        s.requestedBases ≠ [] ∧
          BuildContext.collect { requested := s.requestedBases } s d ⟨s.classesPath⟩ =
            (collectedOn s d, none) ∧
          r = (collectedOn s d).result) := by
  unfold build at h
  dsimp only at h
  split at h
  · cases h
  · cases h
  · next hthere =>
    refine ⟨ClassDirectory.isThere_eq_true.1 hthere, ?_⟩
    split at h
    · next hempty =>
      cases h
      exact .inl ⟨List.isEmpty_iff.1 hempty, rfl⟩
    · next hempty =>
      split at h
      · cases h
      · next c hcollect =>
        obtain ⟨notes, hresolve⟩ := c.resolve_eq
        rw [hresolve] at h
        cases h
        have hc : collectedOn s d = c := congrArg Prod.fst hcollect
        rw [hc]
        exact .inr ⟨fun hnil => hempty (List.isEmpty_iff.2 hnil), hcollect, rfl⟩

/-- The rows of a build are those of the requested bases, each with the names that the consulted
indices list and the known classes that descend from it. -/
theorem rows_of_build (h : (build s d).value = .ok (some r)) :
    r.rows.keys = s.requestedBases ∧ ∀ base ∈ s.requestedBases, ∃ found : NameSet,
      r.rows.get? base = some found.names ∧ ∀ name, name ∈ found ↔
        (base ∈ Index.basesRead s.shape s.requestedBases ∧
          ListedAmong s d s.archives s.requestedBases base name) ∨
        name ∈ (descendants (collectedOn s d).headers base ∅).1 := by
  obtain ⟨-, ⟨hnil, hrows⟩ | ⟨-, hcollect, rfl⟩⟩ := build_eq_some h
  · rw [hrows, hnil]
    exact ⟨rfl, fun _ hb => absurd hb List.not_mem_nil⟩
  · have hgained := BuildContext.gained_collect hcollect
    have hrequested : (collectedOn s d).requested = s.requestedBases := hgained.requested
    refine ⟨(BuildContext.keys_rows (hrequested ▸ Settings.nodup_requestedBases)).trans hrequested,
      fun base hb => ⟨_, BuildContext.get?_rows (hrequested ▸ hb), fun name => ?_⟩⟩
    rw [BuildContext.implementations, NameSet.mem_union, hgained.embedded]
    exact or_congr_left (or_iff_right (NameSet.not_mem_empty name))

theorem exists_row_of_build (h : (build s d).value = .ok (some r)) (hb : base ∈ s.requestedBases) :
    ∃ names, r.rows.get? base = some names := by
  obtain ⟨found, hget, _⟩ := (rows_of_build h).2 base hb
  exact ⟨found.names, hget⟩

/-- What a row of a build is. -/
theorem row_of_build {names : List Text} (h : (build s d).value = .ok (some r))
    (hget : r.rows.get? base = some names) :
    base ∈ s.requestedBases ∧ names.Pairwise (· < ·) ∧ ∀ name, name ∈ names ↔
      (base ∈ Index.basesRead s.shape s.requestedBases ∧
        ListedAmong s d s.archives s.requestedBases base name) ∨
      name ∈ (descendants (collectedOn s d).headers base ∅).1 := by
  obtain ⟨hkeys, hrows⟩ := rows_of_build h
  have hb : base ∈ s.requestedBases := by
    rw [← hkeys]
    exact List.mem_map_of_mem (Table.mem_entries_iff.2 hget)
  obtain ⟨found, hfound, hmem⟩ := hrows base hb
  cases hget.symm.trans hfound
  exact ⟨hb, found.ascending, hmem⟩

/-! ## Runs -/

section
variable {result : Option BuildResult} {report : RunReport} {e : Failure}

/-- A run whose build fails leaves the disk as it was. -/
theorem run_of_error (h : (build s d).value = .error e) :
    (run s d).1 = d ∧ (run s d).2.value = .error e := by
  unfold run
  split
  · next heq =>
    rw [heq] at h
    cases h
    exact ⟨rfl, rfl⟩
  · next heq =>
    rw [heq] at h
    cases h
  · next heq =>
    rw [heq] at h
    cases h

/-- So does one whose build ends without rows. -/
theorem run_of_no_rows (h : (build s d).value = .ok result)
    (hrows : ∀ r, result = some r → r.rows.isEmpty = true) :
    (run s d).1 = d ∧ (run s d).2.value = .ok { result } := by
  unfold run
  split
  · next heq =>
    rw [heq] at h
    cases h
  · next heq =>
    rw [heq] at h
    cases h
    exact ⟨rfl, rfl⟩
  · next heq =>
    rw [heq] at h
    cases h
    rw [if_pos (hrows _ rfl)]
    exact ⟨rfl, rfl⟩

/-- One whose build ends with rows saves them. -/
theorem run_of_rows (h : (build s d).value = .ok (some r)) (hrows : r.rows.isEmpty = false) :
    (run s d).1 = (d.replaceIfChanged s.outputFile (Index.render r.rows s.shape)).1 ∧
      (run s d).2.value =
        match (d.replaceIfChanged s.outputFile (Index.render r.rows s.shape)).2 with
        | .ok written => .ok { result := some r, output := some s.outputFile, written }
        | .error e => .error (.disk e s.outputFile) := by
  unfold run
  split
  · next heq =>
    rw [heq] at h
    cases h
  · next heq =>
    rw [heq] at h
    cases h
  · next heq =>
    rw [heq] at h
    cases h
    rw [hrows, if_neg Bool.false_ne_true]
    dsimp only
    rcases d.replaceIfChanged s.outputFile (Index.render r.rows s.shape) with ⟨d', e | written⟩ <;>
      exact ⟨rfl, rfl⟩

/-- A run that ends has either nothing to save, or saves the rows of its build. -/
theorem run_eq_ok (h : (run s d).2.value = .ok report) :
    ((run s d).1 = d ∧ report = { result := report.result } ∧
      ∀ r, report.result = some r → r.rows.isEmpty = true) ∨
    ∃ r written, (build s d).value = .ok (some r) ∧ r.rows.isEmpty = false ∧
      d.replaceIfChanged s.outputFile (Index.render r.rows s.shape) =
        ((run s d).1, .ok written) ∧
      report = { result := some r, output := some s.outputFile, written } := by
  cases hbuild : (build s d).value with
  | error e =>
    rw [(run_of_error hbuild).2] at h
    cases h
  | ok result =>
    by_cases hrows : ∀ r, result = some r → r.rows.isEmpty = true
    · obtain ⟨hdisk, hvalue⟩ := run_of_no_rows hbuild hrows
      rw [hvalue] at h
      cases h
      exact .inl ⟨hdisk, rfl, hrows⟩
    · simp only [Classical.not_forall, Bool.not_eq_true] at hrows
      obtain ⟨r, rfl, hrows⟩ := hrows
      obtain ⟨hdisk, hvalue⟩ := run_of_rows hbuild hrows
      rw [hvalue] at h
      split at h
      · next written houtcome =>
        cases h
        exact .inr ⟨r, written, rfl, hrows, Prod.ext hdisk.symm houtcome, rfl⟩
      · cases h

/-- A run that fails has either not come to writing, or failed to write. -/
theorem run_eq_error (h : (run s d).2.value = .error e) : (run s d).1 = d ∨
    ∃ text fault, d.replaceIfChanged s.outputFile text = ((run s d).1, .error fault) := by
  cases hbuild : (build s d).value with
  | error e' => exact .inl (run_of_error hbuild).1
  | ok result =>
    by_cases hrows : ∀ r, result = some r → r.rows.isEmpty = true
    · exact .inl (run_of_no_rows hbuild hrows).1
    · simp only [Classical.not_forall, Bool.not_eq_true] at hrows
      obtain ⟨r, rfl, hrows⟩ := hrows
      obtain ⟨hdisk, hvalue⟩ := run_of_rows hbuild hrows
      rw [hvalue] at h
      split at h
      · cases h
      · next fault hfault => exact .inr ⟨_, fault, Prod.ext hdisk.symm hfault⟩

end

end SubclassIndex
