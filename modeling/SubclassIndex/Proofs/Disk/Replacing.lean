import Mathlib.Control.Monad.Basic
import SubclassIndex.Proofs.Disk.PathLemmas

/-!
# Replacing a file in a tree

The file for the new content is gone in either case (`Disk.node?_remove_put`), so that a move that
succeeds changes the target alone (`Disk.replaced_of_replaceFile`) and one that fails changes
nothing (`Disk.node?_of_replaceFile_error`). Before a file is replaced because it changes, nothing
but directories is made (`Disk.replaceIfChanged_cases`); `Disk.Saved` is what there is afterwards,
and saving the same text again finds nothing to do (`Disk.Saved.again`).
-/

namespace SubclassIndex

namespace Disk

variable {d d' made : Disk} {p : Path} {above temporary q : Place} {node : Node} {content : Bytes}
  {text : Text} {e : DiskFault} {outcome : Except DiskFault Bool}

/-! ## Replacing -/

theorem node?_remove_of_below (h : temporary <+: q) (hq : q ≠ []) :
    (d.remove temporary).node? q = none := by
  have hempty : q.isEmpty = false := List.isEmpty_eq_false_iff.2 hq
  rw [node?, hempty, if_neg Bool.false_ne_true, remove, Table.get?_filter,
    List.isPrefixOf_iff_prefix.2 h]
  cases d.nodes.get? q <;> rfl

/-- What was put into a free place of a tree and taken away again leaves no trace. -/
theorem node?_remove_put (hd : d.IsTree) (hfree : d.node? temporary = none) (q : Place) :
    ((d.put temporary node).remove temporary).node? q = d.node? q := by
  by_cases hbelow : temporary <+: q
  · have hnone : d.node? q = none := by
      by_cases hq : temporary = q
      · rw [← hq, hfree]
      · exact hd.node?_below (by rw [hfree]; exact nofun) hbelow hq
    have hne : q ≠ [] := by
      rintro rfl
      cases hnone
    rw [node?_remove_of_below hbelow hne, hnone]
  · rw [node?_remove_of_not_below hbelow, node?_put_of_ne]
    rintro rfl
    exact hbelow List.prefix_rfl

theorem moveFile_eq_error {source : Place} (h : d.moveFile source content p = (d', .error e)) :
    d' = d := by
  unfold moveFile at h
  split at h
  · cases h
    rfl
  · split at h
    · cases h
      rfl
    · split at h <;> cases h
      rfl

/-- A file that could not be replaced leaves everything as it was. -/
theorem node?_of_replaceFile_error (hd : d.IsTree)
    (h : d.replaceFile p content = (d', .error e)) (q : Place) : d'.node? q = d.node? q := by
  unfold replaceFile at h
  split at h
  · cases h
    rfl
  · next directory _ =>
    dsimp only at h
    split at h
    · cases h
      rfl
    · split at h
      · cases h
      · next hmove =>
        cases h
        rw [moveFile_eq_error hmove]
        exact node?_remove_put hd (node?_freshPlace d directory).1 q

/-- A disk on which a path leads to a file of some content, and that is like another one in all
other places. -/
structure Replaced (p : Path) (content : Bytes) (d d' : Disk) : Prop where
  tree : d'.IsTree
  current : d'.current = d.current
  target : ∃ target, d.locate p = .ok target ∧ d'.locate p = .ok target ∧
    d.node? target ≠ some .directory ∧
    ∀ q, d'.node? q = if q = target then some (.file content) else d.node? q

/-- Where a path leads whose file could be replaced: to a name in a directory, and to no directory
itself. The file for the new content did not stand on the way. -/
theorem replaceFile_target (h : d.replaceFile p content = (d', .ok ())) :
    ∃ temporary target, d.node? temporary = none ∧ d.locate p = .ok target ∧
      d.node? target ≠ some .directory ∧
      (∃ above name, target = above ++ [name] ∧ name.IsProper ∧
        d.node? above = some .directory) ∧
      d' = ((d.put temporary (.file content)).remove temporary).put target (.file content) := by
  obtain ⟨directory, hdirectory, hmove⟩ := replaceFile_eq_ok h
  obtain ⟨hfree, n, htemporary⟩ := node?_freshPlace d directory
  generalize d.freshPlace directory = temporary at hmove hfree htemporary
  have houtside : ¬temporary <+: directory := by
    intro hbelow
    have hle := hbelow.length_le
    rw [htemporary, List.length_append, List.length_singleton] at hle
    omega
  have hput : (d.put temporary (.file content)).node? temporary = some (.file content) :=
    node?_put_self (by rw [htemporary]; simp)
  obtain ⟨target, hlocate, hparts, hup, htarget, rfl⟩ := moveFile_eq_ok hmove
  have hlocate₀ : d.locate p = .ok target := by
    refine locate_of_parent (d := d.put temporary (.file content)) rfl (by rw [hput]; simp)
      (fun q _ hq => ?_) hparts (locate_put hfree hdirectory) houtside hlocate
    rwa [node?_put_of_ne] at hq
    rintro rfl
    rw [hput] at hq
    cases hq
  refine ⟨temporary, target, hfree, hlocate₀, fun hdir => htarget ?_,
    exists_of_locate hparts hup hlocate₀, rfl⟩
  rw [node?_put_of_ne, hdir]
  rintro rfl
  rw [hfree] at hdir
  cases hdir

theorem replaced_of_replaceFile (hd : d.IsTree) (h : d.replaceFile p content = (d', .ok ())) :
    Replaced p content d d' := by
  obtain ⟨temporary, _, hfree, hlocate, htarget, ⟨above, name, rfl, hname, habove⟩, rfl⟩ :=
    replaceFile_target h
  have hnode : ∀ q, (((d.put temporary (.file content)).remove temporary).put (above ++ [name])
      (.file content)).node? q = if q = above ++ [name] then some (.file content)
        else d.node? q := by
    intro q
    split
    · next heq => rw [heq, node?_put_self (by simp)]
    · next hne => rw [node?_put_of_ne hne, node?_remove_put hd hfree]
  refine ⟨hd.of_put habove hname htarget hnode, rfl, _, hlocate, ?_, htarget, hnode⟩
  refine locate_mono (d := d) rfl (fun q hq => ?_) hlocate
  rw [hnode, if_neg, hq]
  rintro rfl
  exact htarget hq

namespace Replaced

theorem holdsText (h : Replaced p content d d') (hencode : Utf8.encode? text = some content) :
    d'.HoldsText p text := by
  obtain ⟨target, _, hlocate, _, hnode⟩ := h.target
  refine ⟨content, hencode, ?_⟩
  simp only [lookup, hlocate, hnode, if_pos]

theorem fileAt? (h : Replaced p content d d') (hq : d'.locate p ≠ .ok q) :
    d'.fileAt? q = d.fileAt? q := by
  obtain ⟨target, _, hlocate, _, hnode⟩ := h.target
  have hne : q ≠ target := by
    rintro rfl
    exact hq hlocate
  rw [Disk.fileAt?, Disk.fileAt?, hnode, if_neg hne]

end Replaced

/-! ## Paths that can be replaced -/

/-- The file that a path leads to can be replaced, once the directories above it are made. -/
def CanReplace (d : Disk) (p : Path) : Prop :=
  ∃ made above d', d.makeDirectories maxMissing p.parent = (made, .ok above) ∧
    made.replaceFile p [] = (d', .ok ())

instance (d : Disk) (p : Path) : Decidable (d.CanReplace p) :=
  decidable_of_iff ((d.makeDirectories maxMissing p.parent).2.isOk = true ∧
      ((d.makeDirectories maxMissing p.parent).1.replaceFile p []).2 = .ok ()) (by
    constructor
    · rintro ⟨hmake, hreplace⟩
      rcases heq : d.makeDirectories maxMissing p.parent with ⟨made, e | above⟩
      · rw [heq] at hmake
        cases hmake
      · rw [heq] at hreplace
        exact ⟨made, above, _, heq, Prod.ext rfl hreplace⟩
    · rintro ⟨made, above, d', hmake, hreplace⟩
      rw [hmake, hreplace]
      exact ⟨rfl, rfl⟩)

theorem node?_put_file (d : Disk) (place : Place) (bytes bytes' : Bytes) (q : Place) :
    (d.put place (.file bytes)).node? q = (d.put place (.file bytes')).node? q ∨
      ∃ b b', (d.put place (.file bytes)).node? q = some (.file b) ∧
        (d.put place (.file bytes')).node? q = some (.file b') := by
  by_cases hq : q = place
  · subst hq
    by_cases hnil : q = []
    · subst hnil
      exact .inl rfl
    · exact .inr ⟨bytes, bytes', node?_put_self hnil, node?_put_self hnil⟩
  · rw [node?_put_of_ne hq, node?_put_of_ne hq]
    exact .inl rfl

/-- What a file holds does not matter to the names that pass it. -/
theorem follow_put_file (d : Disk) (place : Place) (bytes bytes' : Bytes) (q : Place)
    (names : List DiskName) : (d.put place (.file bytes)).follow q names =
      (d.put place (.file bytes')).follow q names := by
  induction names generalizing q with
  | nil => rfl
  | cons name names ih =>
    unfold follow
    rcases node?_put_file d place bytes bytes' q with heq | ⟨b, b', hb, hb'⟩
    · rw [heq, ih, ih]
    · rw [hb, hb']

theorem moveFile_of_locate {source target : Place} (hlocate : d.locate p = .ok target)
    (hparts : p.parts ≠ []) (hup : p.name ≠ Path.up) (htarget : d.node? target ≠ some .directory) :
    ∃ d', d.moveFile source content p = (d', .ok ()) := by
  have hlast : ¬(p.parts.isEmpty = true ∨ p.name = Path.up) := fun h =>
    h.elim (fun hempty => hparts (List.isEmpty_iff.1 hempty)) hup
  simp only [moveFile, hlocate, if_neg hlast]
  exact ⟨_, rfl⟩

/-- Whether a file can be replaced does not depend on the new content. -/
theorem replaceFile_of_replaceFile (h : d.replaceFile p content = (d', .ok ())) (content' : Bytes) :
    ∃ d'', d.replaceFile p content' = (d'', .ok ()) := by
  unfold replaceFile at h ⊢
  split at h
  · cases h
  · next directory hdirectory =>
    dsimp only at h ⊢
    split at h
    · cases h
    · next hlen =>
      rw [if_neg hlen]
      split at h
      · next hmove =>
        obtain ⟨target, hlocate, hparts, hup, htarget, -⟩ := moveFile_eq_ok hmove
        generalize d.freshPlace directory = temporary at hlocate htarget
        -- the two temporary files differ in what they hold, and no name on the way asks for that
        have hlocate' : (d.put temporary (.file content')).locate p = .ok target := by
          rw [← hlocate]
          unfold locate
          split
          · exact follow_put_file d temporary content' content _ _
          · rfl
        have htarget' : (d.put temporary (.file content')).node? target ≠ some .directory := by
          rcases node?_put_file d temporary content' content target with heq | ⟨_, _, hfile, _⟩
          · rwa [heq]
          · rw [hfile]
            exact nofun
        obtain ⟨d'', hmove'⟩ : ∃ d'', (d.put temporary (.file content')).moveFile temporary
            content' p = (d'', .ok ()) := moveFile_of_locate hlocate' hparts hup htarget'
        exact ⟨d'', by rw [hmove']⟩
      · cases h

/-! ## Replacing a file that changes -/

theorem replaceIfChanged_of_holdsText
    (hmake : d.makeDirectories maxMissing p.parent = (made, .ok above))
    (h : made.HoldsText p text) : d.replaceIfChanged p text = (made, .ok false) := by
  obtain ⟨content, hencode, hlookup⟩ := h
  have hholds : made.holds p content = .ok true := by
    simp only [holds, isFile_of_lookup hlookup, readFile_of_lookup hlookup, Except.map,
      BEq.rfl]
  simp only [replaceIfChanged, hmake, hencode, hholds]

theorem holds_of_locate (h : d.locate p = .ok q) (content : Bytes) :
    ∃ same, d.holds p content = .ok same := by
  unfold holds
  cases hfile : d.isFile p with
  | error e =>
    have hlookup := (isFile_eq_error hfile).2
    simp only [lookup, h] at hlookup
    split at hlookup <;> cases hlookup
  | ok isThere =>
    cases isThere with
    | false => exact ⟨false, rfl⟩
    | true =>
      obtain ⟨bytes, hlookup⟩ := isFile_eq_true.1 hfile
      rw [readFile_of_lookup hlookup]
      exact ⟨_, rfl⟩

/-- A file that can be replaced comes to hold any text that can be written. -/
theorem replaceIfChanged_of_canReplace (h : d.CanReplace p) (text : Text) :
    (Utf8.encode? text = none → (d.replaceIfChanged p text).2 = .error .unencodable) ∧
      (Utf8.encode? text ≠ none → ∃ written, (d.replaceIfChanged p text).2 = .ok written) := by
  obtain ⟨made, above, d', hmake, hreplace⟩ := h
  refine ⟨fun hnone => ?_, fun hsome => ?_⟩
  · simp only [replaceIfChanged, hmake, hnone]
  · obtain ⟨content, hencode⟩ := Option.ne_none_iff_exists'.1 hsome
    obtain ⟨d'', hreplace'⟩ := replaceFile_of_replaceFile hreplace content
    obtain ⟨_, target, _, hlocate, _⟩ := replaceFile_target hreplace
    obtain ⟨same, hholds⟩ := holds_of_locate hlocate content
    cases same with
    | true => exact ⟨false, by simp only [replaceIfChanged, hmake, hencode, hholds]⟩
    | false => exact ⟨true, by simp only [replaceIfChanged, hmake, hencode, hholds, hreplace']⟩

/-- What replacing a file that changes comes to. Nothing but directories is made before the file is
replaced. -/
theorem replaceIfChanged_cases (hd : d.IsTree) (h : d.replaceIfChanged p text = (d', outcome)) :
    ∃ made, Grown p.parent d made ∧
      ((∃ e, outcome = .error e ∧ ∀ q, d'.node? q = made.node? q) ∨
        ∃ above, d.makeDirectories maxMissing p.parent = (made, .ok above) ∧
          ((outcome = .ok false ∧ d' = made ∧ made.HoldsText p text) ∨
            outcome = .ok true ∧
              ∃ content, Utf8.encode? text = some content ∧ Replaced p content made d')) := by
  unfold replaceIfChanged at h
  cases hmake : d.makeDirectories maxMissing p.parent with
  | mk made parent =>
    refine ⟨made, (grown_makeDirectories hd hmake).1, ?_⟩
    have hmade := (grown_makeDirectories hd hmake).1.tree
    rw [hmake] at h
    cases parent with
    | error e =>
      cases h
      exact .inl ⟨e, rfl, fun _ => rfl⟩
    | ok above =>
      cases hencode : Utf8.encode? text with
      | none =>
        simp only [hencode] at h
        cases h
        exact .inl ⟨_, rfl, fun _ => rfl⟩
      | some content =>
        simp only [hencode] at h
        split at h
        · next e _ =>
          cases h
          exact .inl ⟨e, rfl, fun _ => rfl⟩
        · next hholds =>
          cases h
          exact .inr ⟨above, rfl, .inl ⟨rfl, rfl, content, hencode, lookup_of_holds hholds⟩⟩
        · split at h
          · next hreplace =>
            cases h
            exact .inr ⟨above, rfl, .inr ⟨rfl, content, rfl,
              replaced_of_replaceFile hmade hreplace⟩⟩
          · next hreplace =>
            cases h
            exact .inl ⟨_, rfl, node?_of_replaceFile_error hmade hreplace⟩

/-! ## Saved texts -/

/-- What a disk has become once a path has been made to hold a text: other files and what there was
of directories are as they were, and all directories that are new are on the path. -/
structure Saved (p : Path) (text : Text) (d d' : Disk) : Prop where
  tree : d'.IsTree
  current : d'.current = d.current
  directory : ∀ q, d.node? q = some .directory → d'.node? q = some .directory
  keeps : ∀ q, d.node? q ≠ none → d'.locate p ≠ .ok q → d'.node? q = d.node? q
  fresh : ∀ q, d.node? q = none → d'.node? q ≠ none → d'.locate p ≠ .ok q →
    d'.node? q = some .directory ∧ d'.Passes p q
  holds : d'.HoldsText p text
  parent : ∃ above, d'.locate p.parent = .ok above ∧ d'.node? above = some .directory

theorem locate_of_lookup (h : d.lookup p = .ok node) :
    ∃ place, d.locate p = .ok place ∧ d.node? place = some node := by
  unfold lookup at h
  split at h
  · next place hlocate =>
    split at h
    · next hnode =>
      cases h
      exact ⟨place, hlocate, hnode⟩
    · cases h
  · cases h

/-- A path to a file that has a directory above it is not empty. -/
theorem parts_ne_nil (hparent : d.locate p.parent = .ok above)
    (habove : d.node? above = some .directory) (h : d.lookup p = .ok (.file content)) :
    p.parts ≠ [] := by
  intro hnil
  have hsame : p.parent = p := by
    obtain ⟨root, parts, valid⟩ := p
    subst hnil
    rfl
  rw [hsame] at hparent
  obtain ⟨place, hplace, hfile⟩ := locate_of_lookup h
  cases hparent.symm.trans hplace
  cases habove.symm.trans hfile

theorem saved_of_replaceIfChanged (hd : d.IsTree) {written : Bool}
    (h : d.replaceIfChanged p text = (d', .ok written)) : Saved p text d d' := by
  have hholds := holdsText_of_replaceIfChanged h
  obtain ⟨made, hgrown, ⟨e, he, _⟩ | ⟨above, hmake, hcases⟩⟩ := replaceIfChanged_cases hd h
  · cases he
  obtain ⟨hparent, habove⟩ := (grown_makeDirectories hd hmake).2 above rfl
  have ⟨content, _, hlookup⟩ := hholds
  obtain ⟨place, hplace, _⟩ := locate_of_lookup hlookup
  obtain ⟨names, hnames, _⟩ := locate_eq_ok hplace
  obtain ⟨_, rfl, _⟩ | ⟨_, content', _, hreplaced⟩ := hcases
  · have hparts := parts_ne_nil hparent habove hlookup
    exact ⟨hgrown.tree, hgrown.current, fun _ => hgrown.directory, fun q hq _ => hgrown.keeps q hq,
      fun q hnone hsome _ => (hgrown.fresh q hnone hsome).imp_right (.of_parent hparts hnames),
      hholds, above, hparent, habove⟩
  · obtain ⟨target, _, htarget, hno, hnode⟩ := hreplaced.target
    have hkeep : ∀ q, made.node? q = some .directory → d'.node? q = some .directory := by
      intro q hq
      rw [hnode, if_neg, hq]
      rintro rfl
      exact hno hq
    have hother : ∀ q, d'.locate p ≠ .ok q → d'.node? q = made.node? q := by
      intro q hq
      rw [hnode, if_neg]
      rintro rfl
      exact hq htarget
    have hparent' := locate_mono hreplaced.current hkeep hparent
    have hparts := parts_ne_nil hparent' (hkeep above habove) hlookup
    refine ⟨hreplaced.tree, hreplaced.current.trans hgrown.current,
      fun q hq => hkeep q (hgrown.directory hq),
      fun q hq hne => (hother q hne).trans (hgrown.keeps q hq), fun q hnone hsome hne => ?_,
      hholds, above, hparent', hkeep above habove⟩
    rw [hother q hne] at hsome ⊢
    obtain ⟨hdir, hpasses⟩ := hgrown.fresh q hnone hsome
    exact ⟨hdir, (hpasses.of_parent hparts hnames).mono hreplaced.current hkeep⟩

namespace Saved

theorem target (h : Saved p text d d') (hq : d'.locate p = .ok q) :
    ∃ bytes, d'.node? q = some (.file bytes) := by
  obtain ⟨bytes, _, hlookup⟩ := h.holds
  obtain ⟨place, hplace, hfile⟩ := locate_of_lookup hlookup
  cases hplace.symm.trans hq
  exact ⟨bytes, hfile⟩

theorem parts_ne_nil (h : Saved p text d d') : p.parts ≠ [] := by
  obtain ⟨bytes, _, hlookup⟩ := h.holds
  obtain ⟨above, hparent, habove⟩ := h.parent
  exact Disk.parts_ne_nil hparent habove hlookup

theorem locate (h : Saved p text d d') {p' : Path} (hq : d.locate p' = .ok q) :
    d'.locate p' = .ok q :=
  locate_mono h.current h.directory hq

/-- A path that does not lead up leads to the same file before and after another file is saved. -/
theorem lookup_file_iff (h : Saved p text d d') {p' : Path} {bytes : Bytes} (hd : d.IsTree)
    (hup : Path.up ∉ p'.parts) (hother : ∀ q, d'.locate p' = .ok q → d'.locate p ≠ .ok q) :
    d'.lookup p' = .ok (.file bytes) ↔ d.lookup p' = .ok (.file bytes) := by
  constructor
  · intro hlookup
    obtain ⟨q, hq, hfile⟩ := locate_of_lookup hlookup
    have hsome : d'.node? q ≠ none := by
      rw [hfile]
      exact Option.some_ne_none _
    -- what is new and not the saved file is a directory, and so this file was there before
    have hold : d.node? q ≠ none := by
      intro hnew
      cases hfile.symm.trans (h.fresh q hnew hsome (hother q hq)).1
    obtain ⟨names, hnames, hfollow⟩ := locate_eq_ok hq
    have hstart : d'.startOf p' = d.startOf p' := by rw [startOf, startOf, h.current]
    obtain rfl := eq_append_of_follow (upName_not_mem hnames hup) hfollow
    rw [hstart] at hfile hold hq
    have hlocate : d.locate p' = .ok (d.startOf p' ++ names) := by
      simp only [Disk.locate, hnames, follow_of_tree hd hold]
    have hnode := (h.keeps _ hold (hother _ hq)).symm.trans hfile
    simp only [Disk.lookup, hlocate, hnode]
  · intro hlookup
    obtain ⟨q, hq, hfile⟩ := locate_of_lookup hlookup
    have hq' := h.locate hq
    have hsome : d.node? q ≠ none := by
      rw [hfile]
      exact Option.some_ne_none _
    have hnode := (h.keeps q hsome (hother q hq')).trans hfile
    simp only [Disk.lookup, hq', hnode]

/-- Saving the same text again finds it there. -/
theorem again (h : Saved p text d d') : d'.replaceIfChanged p text = (d', .ok false) := by
  obtain ⟨above, hparent, habove⟩ := h.parent
  exact replaceIfChanged_of_holdsText (makeDirectories_of_directory hparent habove) h.holds

end Saved

end Disk

end SubclassIndex
