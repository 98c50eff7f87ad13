import Mathlib.Data.List.Nodup
import SubclassIndex.Proofs.Disk.PathLemmas
import SubclassIndex.Proofs.Disk.Replacing
import SubclassIndex.Proofs.Source.HarvestLemmas
import SubclassIndex.Source.ClassDirectory

/-!
# Classes beside a saved file

What stands below the root of a classes directory is found under its path
(`ClassDirectory.lookup_pathTo`), unless the path is too long. So saving a file that is no class
below or beside the root leaves the harvest as it was (`ClassDirectory.harvest_of_saved`): new
candidates are directories, which are passed over, and their paths are no longer than that of the
file.
-/

namespace SubclassIndex

/-! ## The order of paths -/

instance : Std.IsLinearOrder CodePoint where
  le_refl c := Nat.le_refl c.val
  le_trans _ _ _ := Nat.le_trans
  le_antisymm _ _ h h' := CodePoint.ext (Nat.le_antisymm h h')
  le_total a b := Nat.le_total a.val b.val

instance : Std.LawfulOrderLT CodePoint where
  lt_iff _ _ := ⟨fun h => ⟨Nat.le_of_lt h, Nat.not_le_of_lt h⟩, fun h => Nat.lt_of_not_le h.2⟩

namespace ClassDirectory

open DiskName

variable {c : ClassDirectory} {d d' : Disk} {root : Place} {rel names : List DiskName} {node : Node}
  {out : Path} {text : Text} {parts : List Text}

/-! ## Paths below the root -/

theorem isPathPart_of_mem (h : ∀ n ∈ rel, n.IsProper) :
    ∀ t ∈ rel.map toText, isPathPart t = true := by
  intro t ht
  obtain ⟨n, hn, rfl⟩ := List.mem_map.1 ht
  exact isPathPart_toText (h n hn)

theorem root_join {p : Path} (h : out.isAbsolute = false) : (p.join out).root = p.root := by
  rw [Path.join, if_neg (by rw [h]; exact Bool.false_ne_true)]

theorem parts_join {p : Path} (h : out.isAbsolute = false) :
    (p.join out).parts = p.parts ++ out.parts := by
  rw [Path.join, if_neg (by rw [h]; exact Bool.false_ne_true)]

theorem isAbsolute_ofText_join (h : ∀ n ∈ rel, n.IsProper) :
    (Path.ofText (Text.join "/" (rel.map toText))).isAbsolute = false := by
  rw [Path.isAbsolute, Path.root_ofText_join (isPathPart_of_mem h)]
  rfl

theorem root_pathTo (h : ∀ n ∈ rel, n.IsProper) :
    (c.pathTo (rel.map toText)).root = c.root.root := root_join (isAbsolute_ofText_join h)

theorem parts_pathTo (hne : rel ≠ []) (h : ∀ n ∈ rel, n.IsProper) :
    (c.pathTo (rel.map toText)).parts = c.root.parts ++ rel.map toText := by
  rw [pathTo, parts_join (isAbsolute_ofText_join h), Path.parts_ofText_join _ (isPathPart_of_mem h)]
  simpa using hne

theorem mapM_parts_pathTo (hne : rel ≠ []) (h : ∀ n ∈ rel, n.IsProper)
    (hroot : Disk.namesOf c.root = .ok names) :
    (c.pathTo (rel.map toText)).parts.mapM ofText? = some (names ++ rel) := by
  rw [parts_pathTo hne h, List.mapM_append, Disk.namesOf_eq_ok hroot, mapM_ofText?_map_toText]
  rfl

/-- The path of what stands below the root leads there, unless it is too long. -/
theorem lookup_pathTo (hd : d.IsTree) (hroot : d.locate c.root = .ok root) (hne : rel ≠ [])
    (hnode : d.node? (root ++ rel) = some node) : d.lookup (c.pathTo (rel.map toText)) =
      if Disk.isTooLong (c.pathTo (rel.map toText)) = true then .error .tooLong else .ok node := by
  have hsome : d.node? (root ++ rel) ≠ none := by
    rw [hnode]
    exact Option.some_ne_none _
  have hproper : ∀ n ∈ rel, n.IsProper := fun n hn =>
    hd.proper_of_mem hsome n (List.mem_append_right _ hn)
  obtain ⟨names, hnames, hfollow⟩ := Disk.locate_eq_ok hroot
  have hzero : (names ++ rel).any (fun n => n.contains 0) = false := by
    refine List.any_eq_false.2 fun n hn => ?_
    rw [List.contains_iff_mem]
    rcases List.mem_append.1 hn with hn | hn
    · exact Disk.zero_not_mem_of_namesOf hnames hn
    · exact (hproper n hn).zero
  have hstart : d.startOf (c.pathTo (rel.map toText)) = d.startOf c.root := by
    rw [Disk.startOf, Disk.startOf, Path.isAbsolute, Path.isAbsolute, root_pathTo hproper]
  have hfollow' : d.follow (d.startOf c.root) (names ++ rel) = .ok (root ++ rel) := by
    rw [Disk.follow_append, hfollow]
    exact Disk.follow_of_tree hd hsome
  unfold Disk.lookup Disk.locate Disk.namesOf
  simp only [mapM_parts_pathTo hne hproper hnames, hzero, Bool.false_eq_true, if_false]
  by_cases hlong : Disk.isTooLong (c.pathTo (rel.map toText)) = true
  · simp only [if_pos hlong]
  · simp only [if_neg hlong, hstart, hfollow', hnode]

/-! ## What is listed -/

theorem mem_keys_below {p : Place} : (p ∈ d.nodes.keys ∧ root.isPrefixOf p = true ∧
    root.length < p.length) ↔ ∃ rel, rel ≠ [] ∧ p = root ++ rel ∧ d.node? (root ++ rel) ≠ none := by
  constructor
  · rintro ⟨hkey, hbelow, hlen⟩
    obtain ⟨rel, rfl⟩ := List.isPrefixOf_iff_prefix.1 hbelow
    refine ⟨rel, ?_, rfl, Disk.node?_of_mem_keys hkey⟩
    rintro rfl
    rw [List.append_nil] at hlen
    exact Nat.lt_irrefl _ hlen
  · rintro ⟨rel, hne, rfl, hnode⟩
    have hlen := List.length_pos_of_ne_nil hne
    refine ⟨Disk.mem_keys_of_node? (by simp [hne]) hnode,
      List.isPrefixOf_iff_prefix.2 (List.prefix_append _ _), ?_⟩
    rw [List.length_append]
    omega

/-- The candidates are what stands below the root under a name with the ending of classes. -/
theorem mem_classPathsBelow : parts ∈ classPathsBelow d root ↔ ∃ rel, rel ≠ [] ∧
    d.node? (root ++ rel) ≠ none ∧ rel.map toText = parts ∧
      ClassName.isClassPath (parts.getLastD []) = true := by
  rw [classPathsBelow, List.mem_filterMap]
  constructor
  · rintro ⟨p, hkey, hparts⟩
    split at hparts
    · next hbelow =>
      obtain ⟨rel, hne, rfl, hnode⟩ := mem_keys_below.1 ⟨hkey, hbelow⟩
      rw [List.drop_left] at hparts
      dsimp only at hparts
      split at hparts
      · next hclass =>
        cases hparts
        exact ⟨rel, hne, hnode, rfl, hclass⟩
      · cases hparts
    · cases hparts
  · rintro ⟨rel, hne, hnode, rfl, hclass⟩
    obtain ⟨hkey, hbelow⟩ := mem_keys_below.2 ⟨rel, hne, rfl, hnode⟩
    refine ⟨_, hkey, ?_⟩
    rw [if_pos hbelow, List.drop_left]
    exact if_pos hclass

theorem mem_directoryPathsBelow : parts ∈ directoryPathsBelow d root ↔ ∃ rel, rel ≠ [] ∧
    d.node? (root ++ rel) = some .directory ∧ rel.map toText = parts := by
  have hentry : ∀ {p : Place} {node : Node}, p ≠ [] →
      ((p, node) ∈ d.nodes.entries ↔ d.node? p = some node) := by
    intro p node hp
    rw [Table.mem_entries_iff, Disk.node?, List.isEmpty_eq_false_iff.2 hp,
      if_neg Bool.false_ne_true]
  rw [directoryPathsBelow, List.mem_filterMap]
  constructor
  · rintro ⟨⟨p, node⟩, hmem, hparts⟩
    dsimp only at hparts
    split at hparts
    · next hbelow =>
      cases hparts
      obtain ⟨rfl, hbelow⟩ := hbelow
      obtain ⟨rel, hne, rfl, -⟩ :=
        mem_keys_below.1 ⟨List.mem_map_of_mem (f := Prod.fst) hmem, hbelow⟩
      exact ⟨rel, hne, (hentry (by simp [hne])).1 hmem, by rw [List.drop_left]⟩
    · cases hparts
  · rintro ⟨rel, hne, hnode, rfl⟩
    have hmem := (hentry (by simp [hne])).2 hnode
    have hsome : d.node? (root ++ rel) ≠ none := by
      rw [hnode]
      exact Option.some_ne_none _
    obtain ⟨-, hbelow⟩ := mem_keys_below.2 ⟨rel, hne, rfl, hsome⟩
    refine ⟨_, hmem, ?_⟩
    dsimp only
    rw [if_pos ⟨rfl, hbelow⟩, List.drop_left]

theorem nodup_classPathsBelow : (classPathsBelow d root).Nodup := by
  refine List.Nodup.filterMap (fun p p' parts hp hp' => ?_) d.nodes.nodup
  dsimp only at hp hp'
  split at hp
  · next hbelow =>
    split at hp
    · cases hp
      split at hp'
      · next hbelow' =>
        split at hp'
        · obtain ⟨rel, rfl⟩ := List.isPrefixOf_iff_prefix.1 hbelow.1
          obtain ⟨rel', rfl⟩ := List.isPrefixOf_iff_prefix.1 hbelow'.1
          rw [List.drop_left, List.drop_left, Option.mem_some] at hp'
          rw [(List.map_inj_right fun _ _ => toText_inj).1 hp']
        · cases hp'
      · cases hp'
    · cases hp
  · cases hp

/-! ## The harvest -/

/-- The candidates in the order of their paths. -/
def sorted (d : Disk) (root : Place) : List (List Text) :=
  (classPathsBelow d root).mergeSort fun a b => decide (a ≤ b)

theorem mem_sorted : parts ∈ sorted d root ↔ parts ∈ classPathsBelow d root := List.mem_mergeSort

theorem sorted_perm : (sorted d root).Perm (classPathsBelow d root) := List.mergeSort_perm _ _

theorem pairwise_sorted : (sorted d root).Pairwise fun a b => decide (a ≤ b) = true := by
  refine List.pairwise_mergeSort (fun a b c hab hbc => ?_) (fun a b => ?_) _
  · simp only [decide_eq_true_eq] at hab hbc ⊢
    exact Std.le_trans hab hbc
  · simp only [Bool.or_eq_true, decide_eq_true_eq]
    exact Std.le_total

/-- Candidates that a second disk has beside those of a first one may be left out of its list. -/
theorem filter_sorted (hsub : classPathsBelow d root ⊆ classPathsBelow d' root) :
    ((sorted d' root).filter fun parts => decide (parts ∈ classPathsBelow d root)) =
      sorted d root := by
  refine List.Perm.eq_of_pairwise (fun a b _ _ hab hba => ?_) (pairwise_sorted.filter _)
    pairwise_sorted ?_
  · exact Std.le_antisymm (of_decide_eq_true hab) (of_decide_eq_true hba)
  · have hnodup : (sorted d' root).Nodup := sorted_perm.nodup_iff.2 nodup_classPathsBelow
    refine (List.perm_ext_iff_of_nodup (hnodup.filter _)
      (sorted_perm.nodup_iff.2 nodup_classPathsBelow)).2 fun parts => ?_
    rw [List.mem_filter, decide_eq_true_eq, mem_sorted, mem_sorted]
    exact and_iff_right_of_imp fun h => hsub h

/-- A directory can be listed where the paths of all directories below it are short enough. -/
def Listable (c : ClassDirectory) (d : Disk) (root : Place) : Prop :=
  ∀ rel, rel ≠ [] → d.node? (root ++ rel) = some .directory →
    Disk.isTooLong (c.pathTo (rel.map toText)) = false

theorem candidates_eq (hroot : d.locate c.root = .ok root) (h : c.Listable d root) :
    c.candidates d = .ok (sorted d root) := by
  have hnone : (directoryPathsBelow d root).find?
      (fun parts => Disk.isTooLong (c.pathTo parts)) = none := by
    refine List.find?_eq_none.2 fun parts hparts => ?_
    obtain ⟨rel, hne, hdir, rfl⟩ := mem_directoryPathsBelow.1 hparts
    rw [h rel hne hdir]
    exact Bool.false_ne_true
  simp only [candidates, hroot, hnone]
  rfl

theorem listable_of_candidates {found : List (List Text)} (hroot : d.locate c.root = .ok root)
    (h : c.candidates d = .ok found) : c.Listable d root := by
  intro rel hne hdir
  unfold candidates at h
  simp only [hroot] at h
  split at h
  · cases h
  · next hnone =>
    have hshort := List.find?_eq_none.1 hnone _ (mem_directoryPathsBelow.2 ⟨rel, hne, hdir, rfl⟩)
    exact Bool.eq_false_iff.2 hshort

theorem harvest_eq (hthere : d.isDirectory c.root = .ok true) (hroot : d.locate c.root = .ok root)
    (h : c.Listable d root) : c.harvest d = .collect (c.read d) (sorted d root) := by
  simp only [harvest, isThere, hthere, candidates_eq hroot h]

theorem read_congr {parts : List Text}
    (h : d'.lookup (c.pathTo parts) = d.lookup (c.pathTo parts)) :
    c.read d' parts = c.read d parts := by
  simp only [read, Disk.isFile, Disk.find, Disk.readFile, h]

theorem read_of_directory {parts : List Text} (h : d.lookup (c.pathTo parts) = .ok .directory) :
    c.read d parts = .ok none := by
  simp only [read, Disk.isFile, Disk.find, h, Except.map]

/-! ## A saved file -/

theorem not_isTooLong_of_namesOf {p : Path} (h : Disk.namesOf p = .ok names) :
    Disk.isTooLong p = false := by
  unfold Disk.namesOf at h
  split at h
  · cases h
  · split at h
    · cases h
    · split at h
      · cases h
      · next hshort => exact Bool.eq_false_iff.2 hshort

section
variable (h : Disk.Saved (c.root.join out) text d d') (hout : out.isAbsolute = false)
  (hroot : d.locate c.root = .ok root)
include h hout hroot

/-- A new directory below the root is on the path of the saved file, and its own path is no
longer. -/
theorem not_isTooLong_of_passes (hne : rel ≠ []) (hnew : d.node? (root ++ rel) = none)
    (hthere : d'.node? (root ++ rel) ≠ none) (hpasses : d'.Passes (c.root.join out) (root ++ rel)) :
    Disk.isTooLong (c.pathTo (rel.map toText)) = false := by
  obtain ⟨front, rest, hnames, hfollow⟩ := hpasses
  obtain ⟨names, hnamesRoot, hfollowRoot⟩ := Disk.locate_eq_ok hroot
  have hstart : d'.startOf (c.root.join out) = d.startOf c.root := by
    rw [Disk.startOf, Disk.startOf, Path.isAbsolute, Path.isAbsolute, root_join hout, h.current]
  rw [hstart] at hfollow
  have hmapM := Disk.namesOf_eq_ok hnames
  rw [parts_join hout] at hmapM
  obtain ⟨names', namesOut, hnames', -, heq⟩ := mapM_ofText?_append.1 hmapM
  obtain rfl : names' = names :=
    Option.some.inj (hnames'.symm.trans (Disk.namesOf_eq_ok hnamesRoot))
  rcases List.append_eq_append_iff.1 heq with ⟨more, hfront, hrest⟩ | ⟨more, hfront, hrest⟩
  · -- the file's path comes to the directory below the root
    rw [hfront, Disk.follow_append, Disk.follow_mono h.directory hfollowRoot] at hfollow
    have hproper : ∀ n ∈ rel, n.IsProper := fun n hn =>
      h.tree.proper_of_mem hthere n (List.mem_append_right _ hn)
    have hnamesRel : (names' ++ rel).Sublist (front ++ rest) := by
      rw [← heq, hrest]
      exact (List.Sublist.refl names').append
        ((Disk.sublist_of_follow hfollow).trans (List.sublist_append_left more rest))
    have hparts : (c.pathTo (rel.map toText)).parts ≠ [] := by
      rw [parts_pathTo hne hproper]
      simp [hne]
    refine Bool.eq_false_iff.2 fun hlong => ?_
    have hlong' := Disk.isTooLong_mono ((root_pathTo hproper).trans (root_join hout).symm) hparts
      (mapM_parts_pathTo hne hproper hnamesRoot) (Disk.namesOf_eq_ok hnames) hnamesRel hlong
    rw [not_isTooLong_of_namesOf hnames] at hlong'
    cases hlong'
  · -- the directory is on the way to the root, and so not new
    exfalso
    rw [hfront] at hfollowRoot
    obtain ⟨q, hq, hway⟩ := Disk.exists_of_follow_append hfollowRoot
    cases (Disk.follow_mono h.directory hq).symm.trans hfollow
    rcases hway with hdirectory | hsame
    · cases hnew.symm.trans hdirectory
    · exact hne (List.append_right_eq_self.1 hsame)

/-- Saving a file leaves the directory as short of long paths as it was. -/
theorem listable_of_saved (hlist : c.Listable d root) : c.Listable d' root := by
  intro rel hne hdir
  have hother : d'.locate (c.root.join out) ≠ .ok (root ++ rel) := by
    intro htarget
    obtain ⟨bytes, hfile⟩ := h.target htarget
    cases hdir.symm.trans hfile
  by_cases hnew : d.node? (root ++ rel) = none
  · have hthere : d'.node? (root ++ rel) ≠ none := by
      rw [hdir]
      exact Option.some_ne_none _
    exact not_isTooLong_of_passes h hout hroot hne hnew hthere (h.fresh _ hnew hthere hother).2
  · exact hlist rel hne ((h.keeps _ hnew hother).symm.trans hdir)

end

/-- The saved file is no candidate if its name has not the ending of classes. -/
theorem not_target_of_isClassPath {p : Path} (h : Disk.Saved p text d d')
    (hname : ClassName.isClassPath p.name = false) (hne : rel ≠ [])
    (hclass : ClassName.isClassPath ((rel.map toText).getLastD []) = true) :
    d'.locate p ≠ .ok (root ++ rel) := by
  intro htarget
  obtain ⟨bytes, hfile⟩ := h.target htarget
  obtain ⟨above, name, heq, hspelled⟩ :=
    Disk.exists_of_locate_file h.tree h.parts_ne_nil htarget (by rw [hfile]; exact nofun)
  obtain ⟨rel₀, last, rfl⟩ := (List.eq_nil_or_concat' rel).resolve_left hne
  rw [← List.append_assoc] at heq
  obtain ⟨-, hlast⟩ := List.append_inj' heq rfl
  obtain rfl := List.singleton_inj.1 hlast
  have hlast : ((rel₀ ++ [last]).map toText).getLastD [] = last.toText := by simp
  rw [hlast, isClassPath_congr (ofText?_toText last) hspelled, hname] at hclass
  cases hclass

/-- A file that is saved below the root or beside it and is no class leaves the classes as they
were. -/
theorem harvest_of_saved (hd : d.IsTree) (h : Disk.Saved (c.root.join out) text d d')
    (hout : out.isAbsolute = false)
    (hname : ClassName.isClassPath (c.root.join out).name = false)
    (hthere : d.isDirectory c.root = .ok true) (hfailure : (c.harvest d).failure = none) :
    c.harvest d' = c.harvest d := by
  obtain ⟨root, hroot, hdir⟩ := Disk.isDirectory_eq_true hthere
  have hroot' := h.locate hroot
  have hthere' := Disk.isDirectory_of_locate hroot' (h.directory root hdir)
  have hlist : c.Listable d root := by
    cases hfound : c.candidates d with
    | error e =>
      simp only [harvest, isThere, hthere, hfound] at hfailure
      cases hfailure
    | ok found => exact listable_of_candidates hroot hfound
  have hlist' := listable_of_saved h hout hroot hlist
  have hkeep : ∀ rel, rel ≠ [] → d.node? (root ++ rel) ≠ none →
      ClassName.isClassPath ((rel.map toText).getLastD []) = true →
      d'.node? (root ++ rel) = d.node? (root ++ rel) := fun rel hne hsome hclass =>
    h.keeps _ hsome (not_target_of_isClassPath h hname hne hclass)
  have hsub : classPathsBelow d root ⊆ classPathsBelow d' root := by
    intro parts hparts
    obtain ⟨rel, hne, hsome, rfl, hclass⟩ := mem_classPathsBelow.1 hparts
    exact mem_classPathsBelow.2 ⟨rel, hne, hkeep rel hne hsome hclass ▸ hsome, rfl, hclass⟩
  rw [harvest_eq hthere' hroot' hlist', harvest_eq hthere hroot hlist, ← filter_sorted hsub]
  refine Eq.trans (Harvest.collect_filter_of_mem fun parts hparts hnot => ?_).symm
    (Harvest.collect_congr_left fun parts hparts => ?_)
  · -- what is a candidate now and was none before is a directory
    obtain ⟨rel, hne, hsome, rfl, hclass⟩ := mem_classPathsBelow.1 (mem_sorted.1 hparts)
    have hnew : d.node? (root ++ rel) = none := by
      by_contra hold
      exact of_decide_eq_false hnot (mem_classPathsBelow.2 ⟨rel, hne, hold, rfl, hclass⟩)
    obtain ⟨hdir', -⟩ := h.fresh _ hnew hsome (not_target_of_isClassPath h hname hne hclass)
    refine read_of_directory ?_
    rw [lookup_pathTo h.tree hroot' hne hdir', hlist' rel hne hdir', if_neg Bool.false_ne_true]
  · rw [List.mem_filter, decide_eq_true_eq] at hparts
    obtain ⟨rel, hne, hsome, rfl, hclass⟩ := mem_classPathsBelow.1 hparts.2
    obtain ⟨node, hnode⟩ := Option.ne_none_iff_exists'.1 hsome
    refine read_congr ?_
    rw [lookup_pathTo hd hroot hne hnode,
      lookup_pathTo h.tree hroot' hne ((hkeep rel hne hsome hclass).trans hnode)]

end ClassDirectory

end SubclassIndex
