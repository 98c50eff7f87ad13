import SubclassIndex.Proofs.Disk.FileLemmas
import SubclassIndex.Proofs.Disk.NameLemmas

/-!
# Trees

On a disk that is a tree everything stands in a directory under a proper name (`Disk.IsTree`).
Names lead to the same place once there are more directories (`Disk.locate_mono`), and making the
directories of a path leaves a tree that has grown along this path and nowhere else
(`Disk.grown_makeDirectories`).
-/

namespace SubclassIndex

namespace Disk

variable {d d' d'' : Disk} {p : Path} {above place target q r : Place}
  {names names₀ front rest : List DiskName} {name : DiskName} {node : Node}

/-- Everything stands in a directory, under a proper name. -/
structure IsTree (d : Disk) : Prop where
  proper : ∀ place name, d.node? (place ++ [name]) ≠ none → name.IsProper
  above : ∀ place name, d.node? (place ++ [name]) ≠ none → d.node? place = some .directory

theorem node?_of_mem_keys (h : q ∈ d.nodes.keys) : d.node? q ≠ none := by
  unfold node?
  split
  · exact Option.some_ne_none _
  · exact fun hnone => Table.lookup_eq_none.1 hnone h

theorem isTree_iff : d.IsTree ↔ ∀ q ∈ d.nodes.keys, (∀ n ∈ q.getLast?, n.IsProper) ∧
    d.node? q.dropLast = some .directory := by
  constructor
  · intro hd q hq
    have hsome := node?_of_mem_keys hq
    rcases List.eq_nil_or_concat' q with rfl | ⟨place, name, rfl⟩
    · exact ⟨nofun, rfl⟩
    · simp only [List.getLast?_concat, Option.mem_some, forall_eq', List.dropLast_concat]
      exact ⟨hd.proper _ _ hsome, hd.above _ _ hsome⟩
  · intro h
    have hkeys : ∀ place name, d.node? (place ++ [name]) ≠ none →
        name.IsProper ∧ d.node? place = some .directory := by
      intro place name hsome
      obtain ⟨hproper, habove⟩ := h _ (mem_keys_of_node? (by simp) hsome)
      rw [List.dropLast_concat] at habove
      exact ⟨hproper name (by simp), habove⟩
    exact ⟨fun place name hsome => (hkeys place name hsome).1,
      fun place name hsome => (hkeys place name hsome).2⟩

instance (d : Disk) : Decidable d.IsTree := decidable_of_iff _ isTree_iff.symm

namespace IsTree

theorem eq_or_directory (hd : d.IsTree) (hbelow : place <+: q) (hq : d.node? q ≠ none) :
    place = q ∨ d.node? place = some .directory := by
  obtain ⟨rest, rfl⟩ := hbelow
  induction rest using List.reverseRecOn with
  | nil => exact .inl (List.append_nil _).symm
  | append_singleton rest name ih =>
    rw [← List.append_assoc] at hq
    have hdir := hd.above _ _ hq
    rcases ih (by rw [hdir]; exact Option.some_ne_none _) with heq | hplace
    · exact .inr (heq ▸ hdir)
    · exact .inr hplace

/-- There is nothing below a place that is no directory. -/
theorem node?_below (hd : d.IsTree) (hno : d.node? place ≠ some .directory)
    (hbelow : place <+: q) (hne : place ≠ q) : d.node? q = none := by
  by_contra hq
  exact (hd.eq_or_directory hbelow hq).elim hne hno

theorem proper_of_mem (hd : d.IsTree) (hq : d.node? q ≠ none) : ∀ n ∈ q, n.IsProper := by
  induction q using List.reverseRecOn with
  | nil => exact fun n hn => nomatch hn
  | append_singleton place name ih =>
    intro n hn
    rcases List.mem_append.1 hn with hn | hn
    · exact ih (by rw [hd.above _ _ hq]; exact Option.some_ne_none _) n hn
    · rw [List.mem_singleton.1 hn]
      exact hd.proper _ _ hq

theorem dropLast_directory (hd : d.IsTree) (h : d.node? place = some .directory) :
    d.node? place.dropLast = some .directory := by
  rcases List.eq_nil_or_concat' place with rfl | ⟨above, name, rfl⟩
  · exact h
  · rw [List.dropLast_concat]
    exact hd.above _ _ (by rw [h]; exact Option.some_ne_none _)

/-- A tree stays one when something is put into one of its directories under a proper name. -/
theorem of_put (hd : d.IsTree) (habove : d.node? above = some .directory) (hname : name.IsProper)
    (hno : d.node? (above ++ [name]) ≠ some .directory)
    (hnode : ∀ q, d'.node? q = if q = above ++ [name] then some node else d.node? q) :
    d'.IsTree := by
  have hkeep : ∀ q, d.node? q = some .directory → d'.node? q = some .directory := by
    intro q hq
    rw [hnode, if_neg, hq]
    rintro rfl
    exact hno hq
  constructor
  all_goals
    intro place name' h
    rw [hnode] at h
    split at h
    · next heq =>
      obtain ⟨rfl, hlast⟩ := List.append_inj' heq rfl
      obtain rfl := List.singleton_inj.1 hlast
      first
        | exact hname
        | exact hkeep _ habove
    · first
        | exact hd.proper _ _ h
        | exact hkeep _ (hd.above _ _ h)

end IsTree

/-! ## More directories -/

/-- Names lead to the same place once there are more directories. -/
theorem follow_mono (hkeep : ∀ q, d.node? q = some .directory → d'.node? q = some .directory)
    (h : d.follow place names = .ok r) : d'.follow place names = .ok r := by
  induction names generalizing place with
  | nil => exact h
  | cons name names ih =>
    obtain ⟨hdir, ⟨hup, h⟩ | ⟨hup, hlen, h⟩⟩ := follow_cons h
    · rw [follow, hkeep place hdir]
      simp only [if_pos hup]
      exact ih h
    · rw [follow, hkeep place hdir]
      simp only [if_neg hup, if_neg hlen]
      exact ih h

theorem locate_mono (hcurrent : d'.current = d.current)
    (hkeep : ∀ q, d.node? q = some .directory → d'.node? q = some .directory)
    (h : d.locate p = .ok r) : d'.locate p = .ok r := by
  obtain ⟨names, hnames, hfollow⟩ := locate_eq_ok h
  have hstart : d'.startOf p = d.startOf p := by rw [startOf, startOf, hcurrent]
  simp only [locate, hnames, hstart]
  exact follow_mono hkeep hfollow

theorem locate_put (hfree : d.node? place = none) (h : d.locate p = .ok r) :
    (d.put place node).locate p = .ok r := by
  refine locate_mono (d := d) rfl (fun q hq => ?_) h
  rw [node?_put_of_ne, hq]
  rintro rfl
  rw [hfree] at hq
  cases hq

/-- A place that a path passes, or leads to. -/
def Passes (d : Disk) (p : Path) (q : Place) : Prop :=
  ∃ front rest, namesOf p = .ok (front ++ rest) ∧ d.follow (d.startOf p) front = .ok q

theorem passes_of_locate (h : d.locate p = .ok q) : d.Passes p q := by
  obtain ⟨names, hnames, hfollow⟩ := locate_eq_ok h
  exact ⟨names, [], by rw [hnames, List.append_nil], hfollow⟩

theorem Passes.mono (hcurrent : d'.current = d.current)
    (hkeep : ∀ q, d.node? q = some .directory → d'.node? q = some .directory)
    (h : d.Passes p q) : d'.Passes p q := by
  obtain ⟨front, rest, hnames, hfollow⟩ := h
  refine ⟨front, rest, hnames, ?_⟩
  rw [startOf, hcurrent]
  exact follow_mono hkeep hfollow

theorem Passes.of_parent (hparts : p.parts ≠ []) (hnames : namesOf p = .ok names)
    (h : d.Passes p.parent q) : d.Passes p q := by
  obtain ⟨front, rest, hparent, hfollow⟩ := h
  obtain ⟨name, rfl⟩ := names_of_parent hparts hnames hparent
  exact ⟨front, rest ++ [name], by rw [hnames, List.append_assoc], hfollow⟩

/-! ## Growth -/

/-- A disk with more directories, all of them on a path. -/
structure Grown (p : Path) (d d' : Disk) : Prop where
  tree : d'.IsTree
  current : d'.current = d.current
  keeps : ∀ q, d.node? q ≠ none → d'.node? q = d.node? q
  fresh : ∀ q, d.node? q = none → d'.node? q ≠ none →
    d'.node? q = some .directory ∧ d'.Passes p q

namespace Grown

theorem refl (hd : d.IsTree) : Grown p d d where
  tree := hd
  current := rfl
  keeps := fun _ _ => rfl
  fresh := fun _ hnone hsome => absurd hnone hsome

theorem directory (h : Grown p d d') (hq : d.node? q = some .directory) :
    d'.node? q = some .directory :=
  (h.keeps q (by rw [hq]; exact Option.some_ne_none _)).trans hq

theorem trans (h : Grown p d d') (h' : Grown p d' d'') : Grown p d d'' where
  tree := h'.tree
  current := h'.current.trans h.current
  keeps := fun q hq => by
    have heq := h.keeps q hq
    rw [h'.keeps q (heq ▸ hq), heq]
  fresh := fun q hnone hsome => by
    by_cases hq : d'.node? q = none
    · exact h'.fresh q hq hsome
    · obtain ⟨hdir, hpasses⟩ := h.fresh q hnone hq
      exact ⟨h'.directory hdir, hpasses.mono h'.current fun _ => h'.directory⟩

theorem of_parent (hparts : p.parts ≠ []) (hnames : namesOf p = .ok names)
    (h : Grown p.parent d d') : Grown p d d' where
  tree := h.tree
  current := h.current
  keeps := h.keeps
  fresh := fun q hnone hsome =>
    (h.fresh q hnone hsome).imp_right (Passes.of_parent hparts hnames)

/-- No file comes or goes or changes. -/
theorem fileAt? (h : Grown p d d') (q : Place) : d'.fileAt? q = d.fileAt? q := by
  unfold Disk.fileAt?
  by_cases hq : d.node? q = none
  · by_cases hq' : d'.node? q = none
    · rw [hq, hq']
    · rw [hq, (h.fresh q hq hq').1]
  · rw [h.keeps q hq]

/-- A disk grows by a directory that the path passes. -/
theorem put (hd : d.IsTree) (habove : d.node? above = some .directory) (hname : name.IsProper)
    (hfree : d.node? (above ++ [name]) = none)
    (hpasses : (d.put (above ++ [name]) .directory).Passes p (above ++ [name])) :
    Grown p d (d.put (above ++ [name]) .directory) := by
  have hnode : ∀ q, (d.put (above ++ [name]) .directory).node? q =
      if q = above ++ [name] then some .directory else d.node? q := by
    intro q
    split
    · next heq => rw [heq, node?_put_self (by simp)]
    · next hne => exact node?_put_of_ne hne
  refine ⟨hd.of_put habove hname (by rw [hfree]; exact nofun) hnode, rfl, ?_, ?_⟩
  · intro q hq
    rw [hnode, if_neg]
    rintro rfl
    exact hq hfree
  · intro q hnone hsome
    rw [hnode] at hsome ⊢
    split at hsome
    · next heq => exact ⟨by rw [if_pos heq], heq ▸ hpasses⟩
    · exact absurd hnone hsome

end Grown

/-! ## The last name of a path -/

theorem zero_not_mem_of_namesOf (h : namesOf p = .ok names) (hname : name ∈ names) : 0 ∉ name := by
  unfold namesOf at h
  split at h
  · cases h
  · split at h
    · cases h
    · next hzero =>
      split at h
      · cases h
      · cases h
        exact fun hmem => hzero (List.any_eq_true.2 ⟨name, hname, by simpa using hmem⟩)

theorem ofText?_upPart : DiskName.ofText? Path.up = some upName := by decide

/-- A path that is not empty has a last name, which is spelled by the last part. -/
theorem exists_lastName (hparts : p.parts ≠ []) (h : namesOf p = .ok names) :
    ∃ names₀ name, names = names₀ ++ [name] ∧ DiskName.ofText? p.name = some name ∧
      (name ≠ upName → name.length ≤ DiskName.maxLength → name.IsProper) := by
  have hm := namesOf_eq_ok h
  rw [← List.dropLast_concat_getLast hparts] at hm
  obtain ⟨names₀, last, -, hlast, rfl⟩ := DiskName.mapM_ofText?_append.1 hm
  obtain ⟨name, hname, rfl⟩ := DiskName.mapM_ofText?_singleton.1 hlast
  have hlast : p.name = p.parts.getLast hparts := by
    rw [Path.name, List.getLastD_eq_getLast?, List.getLast?_eq_getLast_of_ne_nil hparts,
      Option.getD_some]
  refine ⟨names₀, name, rfl, hlast ▸ hname, fun hup hlen => ?_⟩
  have hpart := List.all_eq_true.1 p.valid _ (List.getLast_mem hparts)
  refine DiskName.isProper_of_isPathPart hpart hname (fun hpart => hup ?_) hlen
    (zero_not_mem_of_namesOf h (by simp))
  rw [hpart, ofText?_upPart] at hname
  exact (Option.some.inj hname).symm

/-- Where a path leads that does not end by leading up: to a name in a directory. -/
theorem exists_of_locate (hparts : p.parts ≠ []) (hup : p.name ≠ Path.up)
    (h : d.locate p = .ok target) :
    ∃ above name, target = above ++ [name] ∧ name.IsProper ∧ d.node? above = some .directory := by
  obtain ⟨names, hnames, hfollow⟩ := locate_eq_ok h
  obtain ⟨names₀, name, rfl, hname, hproper⟩ := exists_lastName hparts hnames
  rw [follow_append] at hfollow
  split at hfollow
  · next above habove =>
    obtain ⟨hdir, ⟨rfl, _⟩ | ⟨hne, hlen, hlast⟩⟩ := follow_cons hfollow
    · refine absurd ?_ hup
      exact DiskName.text_eq_of_ascii hname (by decide +kernel)
    · cases hlast
      exact ⟨above, name, rfl, hproper hne (Nat.le_of_not_lt hlen), hdir⟩
  · cases hfollow

/-- A path to a file ends in the name of the file. -/
theorem exists_of_locate_file (hd : d.IsTree) (hparts : p.parts ≠ []) (h : d.locate p = .ok target)
    (hfile : d.node? target ≠ some .directory) :
    ∃ above name, target = above ++ [name] ∧ DiskName.ofText? p.name = some name := by
  obtain ⟨names, hnames, hfollow⟩ := locate_eq_ok h
  obtain ⟨names₀, name, rfl, hname, -⟩ := exists_lastName hparts hnames
  rw [follow_append] at hfollow
  split at hfollow
  · next above habove =>
    obtain ⟨hdir, ⟨_, hup⟩ | ⟨_, _, hlast⟩⟩ := follow_cons hfollow
    · cases hup
      exact absurd (hd.dropLast_directory hdir) hfile
    · cases hlast
      exact ⟨above, name, rfl, hname⟩
  · cases hfollow

theorem namesOf_of_missing (h : d.locate p = .error .missing) : ∃ names, namesOf p = .ok names := by
  unfold locate at h
  split at h
  · next names hnames => exact ⟨names, hnames⟩
  · next e hnames =>
    cases h
    unfold namesOf at hnames
    split at hnames
    · cases hnames
    · split at hnames
      · cases hnames
      · split at hnames <;> cases hnames

/-! ## Making directories -/

theorem makeDirectory_eq_ok (h : d.makeDirectory p = (d', .ok ())) :
    ∃ above name, d.locate p = .ok (above ++ [name]) ∧ name.IsProper ∧
      d.node? above = some .directory ∧ d.node? (above ++ [name]) = none ∧
      d' = d.put (above ++ [name]) .directory := by
  unfold makeDirectory at h
  split at h
  · cases h
  · next place hlocate =>
    split at h
    · cases h
    · next hparts =>
      cases h
      simp only [not_or, List.isEmpty_iff, Option.not_isSome_iff_eq_none] at hparts
      obtain ⟨hne, hup, hfree⟩ := hparts
      obtain ⟨above, name, rfl, hname, habove⟩ := exists_of_locate hne hup hlocate
      exact ⟨above, name, hlocate, hname, habove, hfree, rfl⟩

theorem makeDirectory_eq_error {e : DiskFault} (h : d.makeDirectory p = (d', .error e)) :
    d' = d ∧ (e = .missing → d.locate p = .error .missing) := by
  unfold makeDirectory at h
  split at h
  · next hlocate =>
    cases h
    exact ⟨rfl, fun he => he ▸ hlocate⟩
  · split at h <;> cases h
    exact ⟨rfl, fun he => nomatch he⟩

theorem isDirectory_eq_true (h : d.isDirectory p = .ok true) :
    ∃ place, d.locate p = .ok place ∧ d.node? place = some .directory := by
  unfold isDirectory find lookup at h
  cases hlocate : d.locate p with
  | error e =>
    simp only [hlocate] at h
    cases e <;> cases h
  | ok place =>
    refine ⟨place, rfl, ?_⟩
    cases hnode : d.node? place with
    | none =>
      simp only [hlocate, hnode] at h
      cases h
    | some node =>
      simp only [hlocate, hnode] at h
      cases node with
      | file bytes => cases h
      | directory => rfl

theorem isDirectory_eq_error {e : DiskFault} (h : d.isDirectory p = .error e) : e = .tooLong := by
  unfold isDirectory at h
  cases hfind : d.find p with
  | ok node =>
    rw [hfind] at h
    cases h
  | error e' =>
    rw [hfind] at h
    cases h
    exact (find_eq_error hfind).1

/-- Making one directory of a path, or finding it there. -/
theorem grown_ensureDirectory (hd : d.IsTree) {outcome : Except DiskFault Unit}
    (h : d.ensureDirectory p = (d', outcome)) : Grown p d d' ∧
      (outcome = .ok () → ∃ place, d'.locate p = .ok place ∧ d'.node? place = some .directory) ∧
      (outcome = .error .missing → d' = d ∧ d.locate p = .error .missing) := by
  unfold ensureDirectory at h
  cases hmake : d.makeDirectory p with
  | mk d₁ made =>
    rw [hmake] at h
    cases made with
    | ok =>
      cases h
      obtain ⟨above, name, hlocate, hname, habove, hfree, rfl⟩ := makeDirectory_eq_ok hmake
      have hlocate' : (d.put (above ++ [name]) .directory).locate p = .ok (above ++ [name]) :=
        locate_put hfree hlocate
      exact ⟨.put hd habove hname hfree (passes_of_locate hlocate'),
        fun _ => ⟨_, hlocate', node?_put_self (by simp)⟩, nofun⟩
    | error e =>
      obtain ⟨rfl, hmissing⟩ := makeDirectory_eq_error hmake
      split at h
      · next heq => cases heq
      · next heq =>
        cases heq
        cases h
        exact ⟨.refl hd, nofun, fun _ => ⟨rfl, hmissing rfl⟩⟩
      · next d₂ e' hne heq =>
        cases heq
        have hother : (Except.error e : Except DiskFault Unit) ≠ .error .missing :=
          fun he => hne (Except.error.inj he)
        split at h
        · cases h
          exact ⟨.refl hd, nofun, fun he => absurd he hother⟩
        · split at h
          · next hdir =>
            cases h
            exact ⟨.refl hd, fun _ => isDirectory_eq_true hdir, nofun⟩
          · cases h
            exact ⟨.refl hd, nofun, fun he => absurd he hother⟩
          · next hdir =>
            cases h
            refine ⟨.refl hd, nofun, fun he => ?_⟩
            obtain rfl := Except.error.inj he
            cases isDirectory_eq_error hdir

/-- Where a path leads depends on the step from the directory above alone. -/
theorem locate_of_last (hnames₀ : namesOf p.parent = .ok names)
    (hnames : namesOf p = .ok (names ++ [name])) (hparent : d.locate p.parent = .ok above)
    (hlast : d.follow above [name] = .ok place) :
    d.locate p = .ok place := by
  simp only [locate, hnames₀] at hparent
  have hstart : d.startOf p = d.startOf p.parent := rfl
  simp only [locate, hnames, follow_append, hstart, hparent, hlast]

/-- The step of `makeDirectories` below a directory that is there. -/
theorem grown_makeWithin (hd : d.IsTree) (hparts : p.parts ≠ []) (hnames : namesOf p = .ok names)
    (hparent : d.locate p.parent = .ok above) (habove : d.node? above = some .directory)
    {outcome : Except DiskFault Place}
    (h : d.makeWithin above ((DiskName.ofText? p.name).getD []) = (d', outcome)) :
    Grown p d d' ∧ ∀ place, outcome = .ok place →
      d'.locate p = .ok place ∧ d'.node? place = some .directory := by
  obtain ⟨names₀, name, rfl, hname, hproper⟩ := exists_lastName hparts hnames
  obtain ⟨names₁, hnames₁, hfollow⟩ := locate_eq_ok hparent
  obtain ⟨name', heq⟩ := names_of_parent hparts hnames hnames₁
  obtain ⟨rfl, -⟩ := List.append_inj' heq rfl
  rw [hname, Option.getD_some, makeWithin] at h
  split at h
  · next hup =>
    cases h
    refine ⟨.refl hd, fun place hplace => ?_⟩
    cases hplace
    refine ⟨locate_of_last hnames₁ hnames hparent ?_, hd.dropLast_directory habove⟩
    simp only [follow, habove, if_pos hup]
  · next hup =>
    split at h
    · cases h
      exact ⟨.refl hd, fun _ hplace => by cases hplace⟩
    · next hlen =>
      have hstep : ∀ d'' : Disk, d''.node? above = some .directory →
          d''.follow above [name] = .ok (above ++ [name]) := by
        intro d'' hdir
        simp only [follow, hdir, if_neg hup, if_neg hlen]
      dsimp only at h
      split at h
      · next hdir =>
        cases h
        refine ⟨.refl hd, fun place hplace => ?_⟩
        cases hplace
        exact ⟨locate_of_last hnames₁ hnames hparent (hstep d habove), hdir⟩
      · cases h
        exact ⟨.refl hd, fun _ hplace => by cases hplace⟩
      · next hfree =>
        cases h
        have hname := hproper hup (Nat.le_of_not_lt hlen)
        have habove' : (d.put (above ++ [name]) .directory).node? above = some .directory := by
          rw [node?_put_of_ne (by simp), habove]
        have hthere := locate_of_last hnames₁ hnames (locate_put hfree hparent) (hstep _ habove')
        refine ⟨.put hd habove hname hfree (passes_of_locate hthere), fun place hplace => ?_⟩
        cases hplace
        exact ⟨hthere, node?_put_self (by simp)⟩

/-- Making the directories of a path makes no others, and touches no file. Where they are made, the
path leads to the last of them. -/
theorem grown_makeDirectories (hd : d.IsTree) {room : Nat} {outcome : Except DiskFault Place}
    (h : d.makeDirectories room p = (d', outcome)) : Grown p d d' ∧
      ∀ place, outcome = .ok place →
        d'.locate p = .ok place ∧ d'.node? place = some .directory := by
  -- on the room: the directories above come first, and what their path passes this one passes too
  induction room generalizing p d' outcome with
  | zero =>
    cases h
    exact ⟨.refl hd, nofun⟩
  | succ room ih =>
    unfold makeDirectories at h
    cases hensure : d.ensureDirectory p with
    | mk d₁ ensured =>
      rw [hensure] at h
      obtain ⟨hgrown, hthere, hmissing⟩ := grown_ensureDirectory hd hensure
      split at h
      · next heq =>
        cases heq
        cases h
        obtain ⟨place, hplace, hdir⟩ := hthere rfl
        refine ⟨hgrown, fun place' hplace' => ?_⟩
        obtain rfl := Except.ok.inj (hplace.symm.trans hplace')
        exact ⟨hplace, hdir⟩
      · next heq =>
        cases heq
        obtain ⟨rfl, hlocate⟩ := hmissing rfl
        obtain ⟨names, hnames⟩ := namesOf_of_missing hlocate
        split at h
        · cases h
          exact ⟨hgrown, nofun⟩
        · next hparts =>
          have hparts : p.parts ≠ [] := fun hnil => hparts (List.isEmpty_iff.2 hnil)
          cases hmake : d₁.makeDirectories room p.parent with
          | mk d₂ made =>
            rw [hmake] at h
            obtain ⟨hgrown₂, hmade⟩ := ih hmake
            have hgrown₂ := hgrown₂.of_parent hparts hnames
            cases made with
            | error e =>
              cases h
              exact ⟨hgrown₂, nofun⟩
            | ok above =>
              obtain ⟨hparent, habove⟩ := hmade above rfl
              obtain ⟨hgrown₃, hplace⟩ :=
                grown_makeWithin hgrown₂.tree hparts hnames hparent habove h
              exact ⟨hgrown₂.trans hgrown₃, hplace⟩
      · next heq =>
        cases heq
        cases h
        exact ⟨hgrown, nofun⟩

theorem isDirectory_of_locate (h : d.locate p = .ok place)
    (hdir : d.node? place = some .directory) : d.isDirectory p = .ok true := by
  simp only [isDirectory, find, lookup, h, hdir, Except.map]

/-- There is nothing to make where the path leads to a directory. -/
theorem makeDirectories_of_directory {room : Nat} (h : d.locate p = .ok place)
    (hdir : d.node? place = some .directory) :
    d.makeDirectories (room + 1) p = (d, .ok place) := by
  have hthere := isDirectory_of_locate h hdir
  have hmake : d.makeDirectory p = (d, .error .occupied) := by
    simp only [makeDirectory, h, hdir, Option.isSome_some, or_true, if_true]
  simp [makeDirectories, ensureDirectory, hmake, hthere, h]

end Disk

end SubclassIndex
