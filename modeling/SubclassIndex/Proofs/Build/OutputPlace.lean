import SubclassIndex.Proofs.Build.SecondRun

/-!
# Where a run writes

A run that ends changes at most one file: the one to which the output path leads from the classes
directory. Nothing keeps the path from leading up, to a class or to an archive. It leads below the
classes directory exactly if it comes back by the names that it has left (`changed_of_run`).
-/

namespace SubclassIndex

open Document

variable {s : Settings} {d : Disk} {root place q : Place} {names : List DiskName}
  {report : RunReport}

/-! ## Names that lead up -/

/-- How far up names lead, and the names that they lead down by from there, after one more name. -/
def detourStep : Nat × List DiskName → DiskName → Nat × List DiskName
  | (up, down), name =>
    if name = Disk.upName then if down = [] then (up + 1, []) else (up, down.dropLast)
    else (up, down ++ [name])

/-- How far up names lead, and the names that they lead down by from there. -/
def detour (names : List DiskName) : Nat × List DiskName := names.foldl detourStep (0, [])

/-- The place that lies so far above another one and then below by some names. -/
def Place.beside (place : Place) : Nat × List DiskName → Place
  | (up, down) => place.take (place.length - up) ++ down

theorem dropLast_beside (place : Place) (up : Nat) (down : List DiskName) :
    (place.beside (up, down)).dropLast = place.beside (detourStep (up, down) Disk.upName) := by
  rw [detourStep, if_pos rfl]
  split
  · next hdown =>
    subst hdown
    simp only [Place.beside, List.append_nil, List.dropLast_eq_take, List.take_take,
      List.length_take]
    congr 1
    omega
  · next hdown => exact List.dropLast_append_of_ne_nil hdown

/-- Where names lead, on any disk on which they lead anywhere. -/
theorem Disk.eq_beside_of_follow {taken : Nat × List DiskName}
    (h : d.follow (place.beside taken) names = .ok q) :
    q = place.beside (names.foldl detourStep taken) := by
  induction names generalizing taken with
  | nil =>
    cases h
    rfl
  | cons name names ih =>
    obtain ⟨up, down⟩ := taken
    rw [List.foldl_cons]
    obtain ⟨-, ⟨rfl, hrest⟩ | ⟨hname, -, hrest⟩⟩ := Disk.follow_cons h
    · rw [dropLast_beside] at hrest
      exact ih hrest
    · have hbeside : place.beside (up, down) ++ [name] =
          place.beside (detourStep (up, down) name) := by
        rw [detourStep, if_neg hname, Place.beside, Place.beside, List.append_assoc]
      rw [hbeside] at hrest
      exact ih hrest

/-! ## Places below the classes directory -/

/-- A place lies strictly below another one. -/
def Place.IsBelow (root q : Place) : Prop := ∃ rel, rel ≠ [] ∧ q = root ++ rel

/-- Names that lead up lead below their start again exactly if they come back the same way. -/
theorem isBelow_beside_iff {up : Nat} {down : List DiskName} :
    root.IsBelow (root.beside (up, down)) ↔
      ∃ rel, rel ≠ [] ∧ down = root.drop (root.length - up) ++ rel := by
  refine exists_congr fun rel => and_congr_right fun _ => ?_
  have hroot := List.take_append_drop (root.length - up) root
  constructor
  · intro heq
    rw [← List.append_cancel_left_eq (root.take (root.length - up)), ← List.append_assoc, hroot]
    exact heq
  · rintro rfl
    rw [Place.beside, ← List.append_assoc, hroot]

/-! ## The changed file -/

/-- The output path is followed from where the classes directory is. -/
theorem follow_of_locate_outputFile (haccepted : s.fault? = none)
    (hroot : d.locate s.classesPath = .ok root) (h : d.locate s.outputFile = .ok q) :
    ∃ names, (Path.ofText s.outputPath).parts.mapM DiskName.ofText? = some names ∧
      d.follow root names = .ok q := by
  have hrelative := Settings.outputPath_isAbsolute haccepted
  obtain ⟨all, hall, hfollow⟩ := Disk.locate_eq_ok h
  obtain ⟨above, habove, hfollowAbove⟩ := Disk.locate_eq_ok hroot
  have hparts := Disk.namesOf_eq_ok hall
  rw [Settings.outputFile, ClassDirectory.parts_join hrelative] at hparts
  obtain ⟨above', names, habove', hnames, rfl⟩ := DiskName.mapM_ofText?_append.1 hparts
  cases habove'.symm.trans (Disk.namesOf_eq_ok habove)
  have hstart : d.startOf s.outputFile = d.startOf s.classesPath := by
    rw [Disk.startOf, Disk.startOf, Path.isAbsolute, Path.isAbsolute, Settings.outputFile,
      ClassDirectory.root_join hrelative]
  rw [Disk.follow_append, hstart, hfollowAbove] at hfollow
  exact ⟨names, hnames, hfollow⟩

/-- A run that ends and changes a file has saved its index, and there. -/
theorem saved_of_changed [Zip.Library] (hd : d.IsTree) (h : (run s d).2.value = .ok report)
    (hq : (run s d).1.fileAt? q ≠ d.fileAt? q) : d.isDirectory s.classesPath = .ok true ∧
      (∃ text, Disk.Saved s.outputFile text d (run s d).1) ∧
      (run s d).1.locate s.outputFile = .ok q := by
  obtain ⟨hdisk, -, -⟩ | ⟨r, written, hbuild, -, hwrite, -⟩ := run_eq_ok h
  · rw [hdisk] at hq
    exact absurd rfl hq
  · refine ⟨(build_eq_some hbuild).1, ⟨_, Disk.saved_of_replaceIfChanged hd hwrite⟩, ?_⟩
    cases written with
    | false => exact absurd (Disk.fileAt?_of_not_written hd hwrite nofun q) hq
    | true =>
      refine Decidable.byContradiction fun hother => ?_
      exact hq ((Disk.holdsText_of_written hd hwrite).2 q hother)

/-- Names that do not lead up lead from a directory to files below it. -/
theorem isBelow_of_follow {parts : List Text} {bytes : List UInt8} (hup : Path.up ∉ parts)
    (hnames : parts.mapM DiskName.ofText? = some names) (hfollow : d.follow root names = .ok q)
    (hdirectory : d.node? root = some .directory) (hfile : d.node? q = some (.file bytes)) :
    root.IsBelow q := by
  have hupName : Disk.upName ∉ names := by
    intro hmem
    obtain ⟨t, ht, hspelled⟩ := DiskName.exists_of_mem_mapM hnames hmem
    rw [DiskName.text_eq_of_ascii hspelled (by decide +kernel)] at ht
    exact hup ht
  obtain rfl := Disk.eq_append_of_follow hupName hfollow
  refine ⟨names, fun hnil => ?_, rfl⟩
  -- the names cannot end where they start, for there is a directory
  rw [hnil, List.append_nil] at hfile
  cases hdirectory.symm.trans hfile

/-- A file that is saved to a path is named like a class exactly if the path is. -/
theorem Disk.Saved.isClassPath_iff {p : Path} {text : Text} {before after : Disk}
    (hsaved : Disk.Saved p text before after) (htarget : after.locate p = .ok q) :
    (∀ name ∈ q.getLast?, ClassName.isClassPath name.toText = false) ↔
      ClassName.isClassPath p.name = false := by
  obtain ⟨bytes, hfile⟩ := hsaved.target htarget
  obtain ⟨above, name, rfl, hspelled⟩ :=
    Disk.exists_of_locate_file hsaved.tree hsaved.parts_ne_nil htarget (by rw [hfile]; nofun)
  rw [List.getLast?_concat, ← DiskName.isClassPath_congr (DiskName.ofText?_toText name) hspelled]
  exact ⟨fun hlast => hlast name rfl, fun hname _ hlast => Option.some.inj hlast ▸ hname⟩

/-- A file among the build output that is no input: it lies strictly below the classes directory, is
not named like a class, and no archive is listed by a path to it. -/
structure Settings.OutputOnly (s : Settings) (d : Disk) (root q : Place) : Prop where
  below : root.IsBelow q
  not_class : ∀ name ∈ q.getLast?, ClassName.isClassPath name.toText = false
  not_archive : ∀ t, Value.text t ∈ s.archives → d.locate (.ofText t) ≠ .ok q

/-- The only file that a run changes is the one that the output path leads to from the classes
directory, and it lies below that directory where the path does not lead up. It is a mere output
exactly if the path comes back to the directory by the names that it has left, does not end like
that of a class, and leads to no archive. -/
theorem changed_of_run [Zip.Library] (hd : d.IsTree) (haccepted : s.fault? = none)
    (h : (run s d).2.value = .ok report) (hq : (run s d).1.fileAt? q ≠ d.fileAt? q) :
    (run s d).1.locate s.outputFile = .ok q ∧
    ∃ root names up down, d.locate s.classesPath = .ok root ∧
      (Path.ofText s.outputPath).parts.mapM DiskName.ofText? = some names ∧
      detour names = (up, down) ∧ q = root.take (root.length - up) ++ down ∧
      (Path.up ∉ (Path.ofText s.outputPath).parts → root.IsBelow q) ∧
      (s.OutputOnly (run s d).1 root q ↔
        (∃ rel, rel ≠ [] ∧ down = root.drop (root.length - up) ++ rel) ∧
        ClassName.isClassPath s.outputFile.name = false ∧
        ∀ t, Value.text t ∈ s.archives →
          (run s d).1.locate (.ofText t) ≠ (run s d).1.locate s.outputFile) := by
  obtain ⟨hthere, ⟨text, hsaved⟩, htarget⟩ := saved_of_changed hd h hq
  obtain ⟨root, hroot, hdirectory⟩ := Disk.isDirectory_eq_true hthere
  obtain ⟨names, hnames, hfollow⟩ :=
    follow_of_locate_outputFile haccepted (hsaved.locate hroot) htarget
  obtain ⟨bytes, hfile⟩ := hsaved.target htarget
  have hplace : q = root.beside (detour names) := by
    have hstart : root.beside (0, []) = root := by
      rw [Place.beside, Nat.sub_zero, List.take_length, List.append_nil]
    exact Disk.eq_beside_of_follow (by rwa [hstart])
  have hbelow (hup : Path.up ∉ (Path.ofText s.outputPath).parts) : root.IsBelow q :=
    isBelow_of_follow hup hnames hfollow (hsaved.directory root hdirectory) hfile
  refine ⟨htarget, root, names, (detour names).1, (detour names).2, hroot, hnames, rfl, hplace,
    hbelow, ?_⟩
  rw [htarget, ← hsaved.isClassPath_iff htarget, ← isBelow_beside_iff, ← hplace]
  exact ⟨fun ⟨below, not_class, not_archive⟩ => ⟨below, not_class, not_archive⟩,
    fun ⟨below, not_class, not_archive⟩ => ⟨below, not_class, not_archive⟩⟩

/-- The index goes into a directory of its own among the classes. -/
theorem changed_of_run_unpackedDisk : ∃ report,
    (unpackedDisk.IsTree ∧ nestedSettings.fault? = none ∧
      (run nestedSettings unpackedDisk).2.value = .ok report ∧
      (run nestedSettings unpackedDisk).1.fileAt? [[0x63], [0x6E], [0x69]] ≠
        unpackedDisk.fileAt? [[0x63], [0x6E], [0x69]]) ∧
    nestedSettings.OutputOnly (run nestedSettings unpackedDisk).1 [[0x63]]
      [[0x63], [0x6E], [0x69]] := by
  have hreport : (run nestedSettings unpackedDisk).2.value.toOption.map (fun r => r.written) =
      some true := by decide +kernel
  obtain ⟨report, hrun, -⟩ := exists_ok_of_toOption hreport
  have htree : unpackedDisk.IsTree := by decide +kernel
  have haccepted : nestedSettings.fault? = none := by decide
  have hchanged : (run nestedSettings unpackedDisk).1.fileAt? [[0x63], [0x6E], [0x69]] ≠
      unpackedDisk.fileAt? [[0x63], [0x6E], [0x69]] := by decide +kernel
  refine ⟨report, ⟨htree, haccepted, hrun, hchanged⟩, ?_⟩
  obtain ⟨htarget, root, names, up, down, hroot, hnames, hdetour, -, -, hiff⟩ :=
    changed_of_run htree haccepted hrun hchanged
  have hroot' : unpackedDisk.locate nestedSettings.classesPath = .ok [[0x63]] := by decide +kernel
  cases hroot'.symm.trans hroot
  have hnames' : (Path.ofText nestedSettings.outputPath).parts.mapM DiskName.ofText? =
      some [[0x6E], [0x69]] := by decide +kernel
  cases hnames'.symm.trans hnames
  cases hdetour
  refine hiff.2 ⟨⟨[[0x6E], [0x69]], by decide, rfl⟩, by decide +kernel, fun t ht hsame => ?_⟩
  cases List.mem_singleton.1 ht
  have harchive : (run nestedSettings unpackedDisk).1.locate (.ofText "x") = .ok [[0x78]] := by
    decide +kernel
  rw [htarget, harchive] at hsame
  cases hsame

/-- A disk with one class and an archive with another one. -/
def packedDisk : Disk :=
  smallDisk [("L.class", ClassFile.childOf "a/B" 33)]
    [("x", Zip.pack [{ name := "M.class", content := ClassFile.childOf "q" 33 }])]

/-- Settings whose output path leads up to the archive, and such whose output path is a class. -/
def archiveSettings : Settings := { smallSettings with outputPath := "../x" }

def classSettings : Settings := { smallSettings with outputPath := "L.class" }

/-- Accepted settings let a run write over its archive, outside of the classes directory, and over
one of its classes. -/
theorem run_overwrites_inputs : packedDisk.IsTree ∧
    packedDisk.locate smallSettings.classesPath = .ok [[0x63]] ∧
    (archiveSettings.fault? = none ∧
      (run archiveSettings packedDisk).2.value.toOption.map (fun r => r.written) = some true ∧
      (run archiveSettings packedDisk).1.fileAt? [[0x78]] ≠ packedDisk.fileAt? [[0x78]] ∧
      ¬Place.IsBelow [[0x63]] [[0x78]] ∧
      Value.text "x" ∈ archiveSettings.archives ∧
      packedDisk.locate (.ofText "x") = .ok [[0x78]]) ∧
    classSettings.fault? = none ∧
      (run classSettings packedDisk).2.value.toOption.map (fun r => r.written) = some true ∧
      (run classSettings packedDisk).1.fileAt? [[0x63], "L.class".toUTF8.toList] ≠
        packedDisk.fileAt? [[0x63], "L.class".toUTF8.toList] ∧
      (packedDisk.fileAt? [[0x63], "L.class".toUTF8.toList]).isSome = true := by
  have houtside : ¬Place.IsBelow [[0x63]] [[0x78]] := by
    rintro ⟨rel, -, heq⟩
    exact absurd (List.cons.inj heq).1 (by decide)
  exact ⟨by decide +kernel, by decide +kernel,
    ⟨by decide, by decide +kernel, by decide +kernel, houtside, List.mem_singleton_self _,
      by decide +kernel⟩,
    by decide, by decide +kernel, by decide +kernel, by decide +kernel⟩

end SubclassIndex
