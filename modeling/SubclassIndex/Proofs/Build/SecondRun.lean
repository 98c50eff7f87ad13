import SubclassIndex.Proofs.Build.AtomicWrite
import SubclassIndex.Proofs.Build.Collected
import SubclassIndex.Proofs.Source.ClassDirectoryLemmas
import SubclassIndex.Settings.Check

/-!
# Second runs

A run that has saved its index finds the same sources when it is repeated: the classes as they were
(`ClassDirectory.harvest_of_saved`) and each archive as it was, or again none that can be opened
(`Dependency.opened_of_saved`). Only the notes may differ (`BuildContext.Alike`), so that the second
run comes to the same rows, finds them written and changes nothing (`run_again`).
-/

namespace SubclassIndex

open Document

/-! ## Archives beside a saved file -/

namespace Dependency

variable [Zip.Library]

variable {x : Dependency} {d d' : Disk} {p : Path} {text : Text} {bytes : Bytes}

theorem opened_congr (h : d.lookup x.path = .ok (.file bytes))
    (h' : d'.lookup x.path = .ok (.file bytes)) : x.opened d' = x.opened d := by
  simp only [opened, Disk.isFile_of_lookup h, Disk.isFile_of_lookup h', Disk.readFile_of_lookup h,
    Disk.readFile_of_lookup h']

theorem opened_of_no_file (h : ∀ bytes, d.lookup x.path ≠ .ok (.file bytes)) :
    ∃ e, x.opened d = .error e ∧ e.isInputFailure = true := by
  unfold opened
  split
  · next e hfile =>
    obtain ⟨rfl, -⟩ := Disk.isFile_eq_error hfile
    exact ⟨_, rfl, rfl⟩
  · exact ⟨_, rfl, rfl⟩
  · next hfile =>
    obtain ⟨bytes, hlookup⟩ := Disk.isFile_eq_true.1 hfile
    exact absurd hlookup (h bytes)

/-- An archive is opened as before, or cannot be opened either way. -/
theorem opened_of_saved (h : Disk.Saved p text d d') (hd : d.IsTree)
    (hup : Path.up ∉ x.path.parts)
    (hother : ∀ q, d'.locate x.path = .ok q → d'.locate p ≠ .ok q) :
    x.opened d' = x.opened d ∨ ∃ e e', x.opened d = .error e ∧ x.opened d' = .error e' ∧
      e.isInputFailure = true ∧ e'.isInputFailure = true := by
  by_cases hfile : ∃ bytes, d.lookup x.path = .ok (.file bytes)
  · obtain ⟨bytes, hlookup⟩ := hfile
    exact .inl (opened_congr hlookup ((h.lookup_file_iff hd hup hother).2 hlookup))
  · obtain ⟨e, he, hinput⟩ := opened_of_no_file fun bytes hlookup => hfile ⟨bytes, hlookup⟩
    obtain ⟨e', he', hinput'⟩ := opened_of_no_file (d := d') fun bytes hlookup =>
      hfile ⟨bytes, (h.lookup_file_iff hd hup hother).1 hlookup⟩
    exact .inr ⟨e, e', he, he', hinput, hinput'⟩

end Dependency

/-! ## Contexts that differ in their notes -/

namespace BuildContext

variable {c c' c₁ : BuildContext} {s : Settings} {d d' : Disk} {x : Dependency} {listed : Text}
  {o : Option Failure} {archive : Value} {archives : List Value}

/-- Two contexts that know the same. -/
def Alike (c c' : BuildContext) : Prop := ∃ notes, c' = { c with notes }

theorem Alike.refl (c : BuildContext) : Alike c c := ⟨c.notes, rfl⟩

theorem gather_notes (c : BuildContext) (notes : List Note) (shape : Index.Shape) (text : Text) :
    ({ c with notes } : BuildContext).gather shape text =
      ({ (c.gather shape text).1 with notes }, (c.gather shape text).2) := by
  unfold gather
  dsimp only
  split <;> rfl

theorem Alike.skipIfUnreadable (h : Alike c c') (listed : Text) (o : Option Failure) :
    Alike (BuildContext.skipIfUnreadable listed (c, o)).1
        (BuildContext.skipIfUnreadable listed (c', o)).1 ∧
      (BuildContext.skipIfUnreadable listed (c', o)).2 =
        (BuildContext.skipIfUnreadable listed (c, o)).2 := by
  obtain ⟨notes, rfl⟩ := h
  cases o with
  | none => exact ⟨⟨notes, rfl⟩, rfl⟩
  | some e =>
    unfold BuildContext.skipIfUnreadable
    dsimp only
    split
    · exact ⟨⟨_, rfl⟩, rfl⟩
    · exact ⟨⟨notes, rfl⟩, rfl⟩

theorem skipIfUnreadable_of_inputFailure {e e' : Failure} (h : Alike c c')
    (he : e.isInputFailure = true) (he' : e'.isInputFailure = true) :
    Alike (skipIfUnreadable listed (c, some e)).1 (skipIfUnreadable listed (c', some e')).1 ∧
      (skipIfUnreadable listed (c', some e')).2 = (skipIfUnreadable listed (c, some e)).2 := by
  obtain ⟨notes, rfl⟩ := h
  unfold skipIfUnreadable
  dsimp only
  rw [if_pos he, if_pos he']
  exact ⟨⟨_, rfl⟩, rfl⟩

variable [Zip.Library]

theorem Alike.read (h : Alike c c') (s : Settings) (x : Dependency) (listed : Text) :
    Alike (c.read s x listed).1 (c'.read s x listed).1 ∧
      (c'.read s x listed).2 = (c.read s x listed).2 := by
  obtain ⟨notes, rfl⟩ := h
  cases hindex : x.index? s c.requested with
  | error e =>
    rw [read_of_error listed hindex, read_of_error (c := { c with notes }) listed hindex]
    exact ⟨⟨notes, rfl⟩, rfl⟩
  | ok index =>
    cases index with
    | none =>
      obtain ⟨notes₁, hread⟩ := read_of_none listed hindex
      obtain ⟨notes₂, hread'⟩ := read_of_none (c := { c with notes }) listed hindex
      rw [hread, hread']
      exact ⟨⟨notes₂, rfl⟩, rfl⟩
    | some text =>
      obtain ⟨notes₁, hread⟩ := read_of_some listed hindex
      obtain ⟨notes₂, hread'⟩ := read_of_some (c := { c with notes }) listed hindex
      rw [hread, hread', gather_notes c notes]
      split <;> exact ⟨⟨notes₂, rfl⟩, rfl⟩

/-- Where an archive opens as before, or cannot be opened either way, its scan comes to the same. -/
theorem Alike.scanArchive (h : Alike c c') (s : Settings)
    (hopened : ({ path := .ofText listed } : Dependency).opened d' =
        ({ path := .ofText listed } : Dependency).opened d ∨
      ∃ e e', ({ path := .ofText listed } : Dependency).opened d = .error e ∧
        ({ path := .ofText listed } : Dependency).opened d' = .error e' ∧
        e.isInputFailure = true ∧ e'.isInputFailure = true) :
    Alike (c.scanArchive s d (.text listed)).1 (c'.scanArchive s d' (.text listed)).1 ∧
      (c'.scanArchive s d' (.text listed)).2 = (c.scanArchive s d (.text listed)).2 := by
  unfold BuildContext.scanArchive
  dsimp only
  rcases hopened with heq | ⟨e, e', he, he', hinput, hinput'⟩
  · rw [heq]
    split
    · exact h.skipIfUnreadable listed _
    · next x _ =>
      obtain ⟨hread, hfailure⟩ := h.read s x listed
      rw [show c'.read s x listed = ((c'.read s x listed).1, (c.read s x listed).2) from
        Prod.ext rfl hfailure]
      exact hread.skipIfUnreadable listed (c.read s x listed).2
  · rw [he, he']
    exact skipIfUnreadable_of_inputFailure h hinput hinput'

/-- Archives that are all apart from a saved file are scanned to the same end. -/
theorem Alike.scanArchives {p : Path} {text : Text} (h : Alike c c') (s : Settings)
    (hd : d.IsTree) (hsaved : Disk.Saved p text d d')
    (hapart : ∀ t, .text t ∈ archives → Path.up ∉ (Path.ofText t).parts ∧
      ∀ q, d'.locate (.ofText t) = .ok q → d'.locate p ≠ .ok q)
    (hscan : c.scanArchives s d archives = (c₁, none)) :
    ∃ c₂, c'.scanArchives s d' archives = (c₂, none) ∧ Alike c₁ c₂ := by
  induction archives generalizing c c' with
  | nil =>
    cases hscan
    exact ⟨c', rfl, h⟩
  | cons archive archives ih =>
    rw [BuildContext.scanArchives] at hscan ⊢
    split at hscan
    · next c₀ hfirst =>
      -- the scan went on, and so the listed value is no other than a text
      have htext : ∃ listed, archive = .text listed := by
        unfold BuildContext.scanArchive at hfirst
        split at hfirst
        · exact ⟨_, rfl⟩
        · cases hfirst
      obtain ⟨listed, rfl⟩ := htext
      obtain ⟨hup, hother⟩ := hapart listed List.mem_cons_self
      obtain ⟨halike, hnone⟩ := h.scanArchive s
        (Dependency.opened_of_saved (x := { path := .ofText listed }) hsaved hd hup hother)
      rw [hfirst] at halike hnone
      obtain ⟨c₂, hrest, hend⟩ := ih halike
        (fun t ht => hapart t (List.mem_cons_of_mem _ ht)) hscan
      refine ⟨c₂, ?_, hend⟩
      rw [show c'.scanArchive s d' (.text listed) =
        ((c'.scanArchive s d' (.text listed)).1, none) from Prod.ext rfl hnone]
      exact hrest
    · next hne =>
      exact absurd hscan (hne c₁)

end BuildContext

/-! ## Building and running again -/

variable {s : Settings} {d d' : Disk} {r : BuildResult} {report : RunReport} {text : Text}

/-- No archive is listed by a path that leads up or to the output file. -/
def Settings.ArchivesApart (s : Settings) (d : Disk) : Prop :=
  ∀ t, Value.text t ∈ s.archives → Path.up ∉ (Path.ofText t).parts ∧
    ∀ q, d.locate (.ofText t) = .ok q → d.locate s.outputFile ≠ .ok q

theorem BuildContext.Alike.result_eq {c c' : BuildContext} (h : Alike c c') :
    c'.result = c.result := by
  obtain ⟨notes, rfl⟩ := h
  rfl

section

variable [Zip.Library]

/-- The classes and the archives of a run that has saved its index are collected to the same end. -/
theorem BuildContext.collect_of_saved {c c₁ : BuildContext} (hd : d.IsTree)
    (haccepted : s.fault? = none) (hsaved : Disk.Saved s.outputFile text d d')
    (hname : ClassName.isClassPath s.outputFile.name = false) (hapart : s.ArchivesApart d')
    (hthere : d.isDirectory s.classesPath = .ok true)
    (h : c.collect s d ⟨s.classesPath⟩ = (c₁, none)) :
    ∃ c₂, c.collect s d' ⟨s.classesPath⟩ = (c₂, none) ∧ Alike c₁ c₂ := by
  unfold BuildContext.collect at h ⊢
  split at h
  · cases h
  · next own hown =>
    have hharvest : (⟨s.classesPath⟩ : ClassDirectory).harvest d' =
        (⟨s.classesPath⟩ : ClassDirectory).harvest d :=
      ClassDirectory.harvest_of_saved hd hsaved (Settings.outputPath_isAbsolute haccepted) hname
        hthere (congrArg Prod.snd hown)
    rw [hharvest, hown]
    split at h
    · cases h
    · next c₀ hscan =>
      cases h
      obtain ⟨c₂, hscan', notes, rfl⟩ :=
        (Alike.refl own).scanArchives s hd hsaved hapart hscan
      rw [hscan']
      exact ⟨_, rfl, _, rfl⟩

theorem build_of_saved (hd : d.IsTree) (haccepted : s.fault? = none)
    (hsaved : Disk.Saved s.outputFile text d d')
    (hname : ClassName.isClassPath s.outputFile.name = false) (hapart : s.ArchivesApart d')
    (h : (build s d).value = .ok (some r)) (hrows : r.rows.isEmpty = false) :
    (build s d').value = .ok (some r) := by
  obtain ⟨hthere, ⟨-, hnone⟩ | ⟨hbases, hcollect, rfl⟩⟩ := build_eq_some h
  · rw [hnone] at hrows
    cases hrows
  · obtain ⟨root, hroot, hdirectory⟩ := Disk.isDirectory_eq_true hthere
    obtain ⟨c', hcollect', halike⟩ :=
      BuildContext.collect_of_saved hd haccepted hsaved hname hapart hthere hcollect
    rw [← halike.result_eq]
    exact build_of_collect (Disk.isDirectory_of_locate (hsaved.locate hroot)
      (hsaved.directory root hdirectory)) hbases hcollect'

/-- A run that has come to its end and is repeated, with nothing else changed, comes to the same
result, has nothing to write, and leaves the disk as it is. -/
theorem run_again (hd : d.IsTree) (haccepted : s.fault? = none)
    (hname : ClassName.isClassPath s.outputFile.name = false)
    (hapart : s.ArchivesApart (run s d).1) (h : (run s d).2.value = .ok report) :
    (run s (run s d).1).2.value = .ok { report with written := false } ∧
      (run s (run s d).1).1 = (run s d).1 := by
  obtain ⟨hdisk, hreport, -⟩ | ⟨r, written, hbuild, hrows, hwrite, rfl⟩ := run_eq_ok h
  · rw [hdisk, hdisk, h, hreport]
    exact ⟨rfl, rfl⟩
  · have hsaved := Disk.saved_of_replaceIfChanged hd hwrite
    obtain ⟨hdisk', hvalue'⟩ :=
      run_of_rows (build_of_saved hd haccepted hsaved hname hapart hbuild hrows) hrows
    rw [hdisk', hvalue', hsaved.again]
    exact ⟨rfl, rfl⟩

end

/-- A disk with one class and a file that is no archive. -/
def unpackedDisk : Disk := smallDisk [("L.class", ClassFile.childOf "a/B" 33)] [("x", [0])]

/-- Settings that put the index into a directory of its own among the classes. -/
def nestedSettings : Settings := { smallSettings with outputPath := "n/i" }

theorem archivesApart_unpackedDisk :
    nestedSettings.ArchivesApart (run nestedSettings unpackedDisk).1 := by
  intro t ht
  cases List.mem_singleton.1 ht
  have harchive : (run nestedSettings unpackedDisk).1.locate (.ofText "x") = .ok [[0x78]] := by
    decide +kernel
  have houtput : (run nestedSettings unpackedDisk).1.locate nestedSettings.outputFile =
      .ok [[0x63], [0x6E], [0x69]] := by decide +kernel
  refine ⟨by decide, fun q hq hsame => ?_⟩
  cases harchive.symm.trans hq
  cases houtput.symm.trans hsame

/-- The first run skips the archive, and makes the directory and the file; the second finds them. -/
theorem run_again_unpackedDisk : ∃ report, report.written = true ∧
    report.result.map (fun r => r.skipped) = some [("x" : Text)] ∧
    (run nestedSettings unpackedDisk).2.value = .ok report ∧
    (run nestedSettings (run nestedSettings unpackedDisk).1).2.value =
      .ok { report with written := false } ∧
    (run nestedSettings (run nestedSettings unpackedDisk).1).1 =
      (run nestedSettings unpackedDisk).1 := by
  have hreport : (run nestedSettings unpackedDisk).2.value.toOption.map
      (fun report => (report.written, report.result.map (fun r => r.skipped))) =
        some (true, some [("x" : Text)]) := by decide +kernel
  obtain ⟨report, hrun, hread⟩ := exists_ok_of_toOption hreport
  obtain ⟨hwritten, hskipped⟩ := Prod.mk.inj hread
  exact ⟨report, hwritten, hskipped, hrun,
    run_again (by decide +kernel) (by decide) (by decide) archivesApart_unpackedDisk hrun⟩

end SubclassIndex
