import SubclassIndex.Disk.Write
import SubclassIndex.Proofs.TableLemmas
import SubclassIndex.Proofs.TextLemmas
import SubclassIndex.Proofs.Utf8Lemmas

/-!
# Replaced files

A path that was replaced with a text leads to a file that holds it
(`holdsText_of_replaceIfChanged`), on any disk and however the path winds. The new content comes
from a file of its own, which is put where nothing is (`node?_freshPlace`); taking it away again
leaves all directories that the path passes, because a path that enters a place that is no directory
cannot leave it (`follow_below`).
-/

namespace SubclassIndex

namespace Disk

variable {d d' : Disk} {p : Path} {place temporary target q r : Place} {names : List DiskName}
  {name : DiskName} {node : Node} {bytes content : Bytes} {text : Text}

/-- A path leads to a file that holds a text in UTF-8. -/
def HoldsText (d : Disk) (p : Path) (text : Text) : Prop :=
  ∃ bytes, Utf8.encode? text = some bytes ∧ d.lookup p = .ok (.file bytes)

theorem isFile_of_lookup (h : d.lookup p = .ok (.file bytes)) : d.isFile p = .ok true := by
  rw [isFile, find, h]
  rfl

theorem readFile_of_lookup (h : d.lookup p = .ok (.file bytes)) : d.readFile p = .ok bytes := by
  rw [readFile, h]

theorem lookup_of_readFile (h : d.readFile p = .ok bytes) : d.lookup p = .ok (.file bytes) := by
  unfold readFile at h
  split at h
  · next heq =>
    cases h
    exact heq
  · cases h
  · cases h

/-- Only a path that is too long cannot be asked about. -/
theorem find_eq_error {e : DiskFault} (h : d.find p = .error e) :
    e = .tooLong ∧ d.lookup p = .error .tooLong := by
  unfold find at h
  split at h
  · cases h
  · next hlookup =>
    cases h
    exact ⟨rfl, hlookup⟩
  · cases h

theorem isFile_eq_error {e : DiskFault} (h : d.isFile p = .error e) :
    e = .tooLong ∧ d.lookup p = .error .tooLong := by
  unfold isFile at h
  cases hfind : d.find p with
  | ok node =>
    rw [hfind] at h
    cases h
  | error e' =>
    rw [hfind] at h
    cases h
    exact find_eq_error hfind

theorem isFile_eq_true : d.isFile p = .ok true ↔ ∃ bytes, d.lookup p = .ok (.file bytes) := by
  refine ⟨fun h => ?_, fun ⟨_, h⟩ => isFile_of_lookup h⟩
  unfold isFile find at h
  split at h
  · next node hlookup =>
    cases node with
    | file bytes => exact ⟨bytes, hlookup⟩
    | directory => cases h
  · cases h
  · cases h

/-! ## Places -/

@[simp] theorem node?_nil (d : Disk) : d.node? [] = some .directory := rfl

theorem node?_put_self (h : place ≠ []) : (d.put place node).node? place = some node := by
  have hempty : place.isEmpty = false := List.isEmpty_eq_false_iff.2 h
  rw [node?, hempty, if_neg Bool.false_ne_true, put, Table.get?_insert, if_pos rfl]

theorem node?_put_of_ne (h : q ≠ place) : (d.put place node).node? q = d.node? q := by
  rw [node?, node?, put, Table.get?_insert, if_neg (Ne.symm h)]

theorem node?_remove_of_not_below (h : ¬place <+: q) : (d.remove place).node? q = d.node? q := by
  have hp : place.isPrefixOf q = false :=
    Bool.eq_false_iff.2 fun he => h (List.isPrefixOf_iff_prefix.1 he)
  rw [node?, node?, remove, Table.get?_filter, hp]
  cases d.nodes.get? q <;> rfl

theorem mem_keys_of_node? (hq : q ≠ []) (h : d.node? q ≠ none) : q ∈ d.nodes.keys := by
  have hempty : q.isEmpty = false := List.isEmpty_eq_false_iff.2 hq
  rw [node?, hempty, if_neg Bool.false_ne_true] at h
  exact Decidable.byContradiction fun hk => h (Table.lookup_eq_none.2 hk)

/-! ## Following names -/

theorem follow_append (d : Disk) (place : Place) (names names' : List DiskName) :
    d.follow place (names ++ names') =
      match d.follow place names with
      | .ok q => d.follow q names'
      | .error e => .error e := by
  induction names generalizing place with
  | nil => rfl
  | cons name names ih =>
    simp only [List.cons_append, follow]
    split
    · rfl
    · rfl
    · split
      · exact ih _
      · split
        · rfl
        · exact ih _

theorem follow_cons (h : d.follow place (name :: names) = .ok r) :
    d.node? place = some .directory ∧
      ((name = upName ∧ d.follow place.dropLast names = .ok r) ∨
        (name ≠ upName ∧ ¬DiskName.maxLength < name.length ∧
          d.follow (place ++ [name]) names = .ok r)) := by
  unfold follow at h
  split at h
  · cases h
  · cases h
  · next hdir =>
    refine ⟨hdir, ?_⟩
    split at h
    · next hup => exact .inl ⟨hup, h⟩
    · next hup =>
      split at h
      · cases h
      · next hlen => exact .inr ⟨hup, hlen, h⟩

theorem prefix_dropLast (h : temporary <+: place) (hne : place ≠ temporary) :
    temporary <+: place.dropLast := by
  obtain ⟨rest, rfl⟩ := h
  have hrest : rest ≠ [] := by
    rintro rfl
    exact hne (List.append_nil _)
  rw [List.dropLast_append_of_ne_nil hrest]
  exact List.prefix_append _ _

/-- Names lead from below a place that is no directory to nowhere else. -/
theorem follow_below (hno : d.node? temporary ≠ some .directory) (hbelow : temporary <+: place)
    (h : d.follow place names = .ok r) : temporary <+: r := by
  induction names generalizing place with
  | nil =>
    cases h
    exact hbelow
  | cons name names ih =>
    obtain ⟨hdir, ⟨_, h⟩ | ⟨_, _, h⟩⟩ := follow_cons h
    · have hne : place ≠ temporary := by
        rintro rfl
        exact hno hdir
      exact ih (prefix_dropLast hbelow hne) h
    · exact ih (hbelow.trans (List.prefix_append _ _)) h

/-- Names lead to the same place on a disk that has the same directories, save those below a place
that is no directory. -/
theorem follow_congr (hno : d.node? temporary ≠ some .directory)
    (hkeep : ∀ q, ¬temporary <+: q → d.node? q = some .directory → d'.node? q = some .directory)
    (hr : ¬temporary <+: r) (h : d.follow place names = .ok r) : d'.follow place names = .ok r := by
  induction names generalizing place with
  | nil => exact h
  | cons name names ih =>
    have hplace : ¬temporary <+: place := fun hbelow => hr (follow_below hno hbelow h)
    obtain ⟨hdir, ⟨hup, h⟩ | ⟨hup, hlen, h⟩⟩ := follow_cons h
    · rw [follow, hkeep place hplace hdir]
      simp only [if_pos hup]
      exact ih h
    · rw [follow, hkeep place hplace hdir]
      simp only [if_neg hup, if_neg hlen]
      exact ih h

/-- One name leads to the same place from a directory of either disk. -/
theorem follow_singleton (h : d.node? place = some .directory)
    (h' : d'.node? place = some .directory) : d'.follow place [name] = d.follow place [name] := by
  simp only [follow, h, h']

/-! ## The file for new content -/

theorem temporaryName_inj {m n : Nat} (h : temporaryName m = temporaryName n) : m = n := by
  have hread : ∀ n, Utf8.decode? .codePoints (temporaryName n) =
      some ("services" ++ Text.ofNatPadded 8 n ++ ".tmp") :=
    fun n => Utf8.decode?_flatMap_bytesOf fun _ _ => .inl rfl
  have htext := (hread m).symm.trans ((congrArg _ h).trans (hread n))
  rw [Option.some.injEq] at htext
  exact Text.ofNatPadded_inj (List.append_cancel_left (List.append_cancel_right htext))

/-- The place for new content is free: there are more places to choose from than things on the
disk. -/
theorem node?_freshPlace (d : Disk) (directory : Place) :
    d.node? (d.freshPlace directory) = none ∧
      ∃ n, d.freshPlace directory = directory ++ [temporaryName n] := by
  generalize hplaces : (List.range (d.nodes.size + 1)).map
    (fun n => directory ++ [temporaryName n]) = places
  have hfresh : d.freshPlace directory = (places.find? fun p => (d.node? p).isNone).getD
      (directory ++ [temporaryName (d.nodes.size + 1)]) := by rw [← hplaces, freshPlace]
  rw [hfresh]
  cases hfind : places.find? fun p => (d.node? p).isNone with
  | some q =>
    have hnone := List.find?_some hfind
    refine ⟨Option.isNone_iff_eq_none.1 hnone, ?_⟩
    have hq := List.mem_of_find?_eq_some hfind
    rw [← hplaces] at hq
    obtain ⟨n, _, rfl⟩ := List.mem_map.1 hq
    exact ⟨n, rfl⟩
  | none =>
    have hd : places.Nodup := by
      rw [← hplaces]
      refine List.Pairwise.map _ (fun m n hne heq => hne ?_) List.nodup_range
      exact temporaryName_inj (List.singleton_inj.1 (List.append_cancel_left heq))
    have hsub : places ⊆ d.nodes.keys := by
      intro q hq
      have hsome := List.find?_eq_none.1 hfind q hq
      refine mem_keys_of_node? ?_ fun hnone => hsome (Option.isNone_iff_eq_none.2 hnone)
      rw [← hplaces] at hq
      obtain ⟨n, _, rfl⟩ := List.mem_map.1 hq
      simp
    have hle := hd.length_le_of_subset hsub
    rw [← hplaces, List.length_map, List.length_range, Table.keys, List.length_map] at hle
    exact absurd hle (Nat.not_succ_le_self _)

/-! ## Replacing a file -/

theorem namesOf_eq_ok (h : namesOf p = .ok names) : p.parts.mapM DiskName.ofText? = some names := by
  unfold namesOf at h
  split at h
  · cases h
  · next names' hm =>
    split at h
    · cases h
    · split at h
      · cases h
      · cases h
        exact hm

theorem locate_eq_ok (h : d.locate p = .ok target) :
    ∃ names, namesOf p = .ok names ∧ d.follow (d.startOf p) names = .ok target := by
  unfold locate at h
  split at h
  · next names hn => exact ⟨names, hn, h⟩
  · cases h

/-- The names of a path are those of its parent and one more. -/
theorem names_of_parent {names₀ : List DiskName} (hp : p.parts ≠ []) (h : namesOf p = .ok names)
    (h₀ : namesOf p.parent = .ok names₀) : ∃ name, names = names₀ ++ [name] := by
  have hm := namesOf_eq_ok h
  have hm₀ : p.parts.dropLast.mapM DiskName.ofText? = some names₀ := namesOf_eq_ok h₀
  rw [← List.dropLast_concat_getLast hp, List.mapM_append, hm₀] at hm
  cases hx : DiskName.ofText? (p.parts.getLast hp) with
  | none => simp [hx] at hm
  | some name =>
    refine ⟨name, ?_⟩
    simpa [hx] using hm.symm

section

variable {directory : Place} (hcurrent : d'.current = d.current)
  (hno : d.node? temporary ≠ some .directory)
  (hkeep : ∀ q, ¬temporary <+: q → d.node? q = some .directory → d'.node? q = some .directory)
include hcurrent hno hkeep

theorem locate_congr (hr : ¬temporary <+: r) (h : d.locate p = .ok r) : d'.locate p = .ok r := by
  obtain ⟨names, hnames, hfollow⟩ := locate_eq_ok h
  have hstart : d'.startOf p = d.startOf p := by rw [startOf, startOf, hcurrent]
  simp only [locate, hnames, hstart]
  exact follow_congr hno hkeep hr hfollow

/-- Where the parent of a path leads to a directory that stays, the path leads to the same place on
both disks, whatever is there. -/
theorem locate_of_parent (hparts : p.parts ≠ []) (hparent : d.locate p.parent = .ok directory)
    (houtside : ¬temporary <+: directory) (h : d.locate p = .ok target) :
    d'.locate p = .ok target := by
  have hparent' := locate_congr hcurrent hno hkeep houtside hparent
  obtain ⟨names₀, hnames₀, hfollow₀⟩ := locate_eq_ok hparent
  obtain ⟨names, hnames, hfollow⟩ := locate_eq_ok h
  obtain ⟨name, rfl⟩ := names_of_parent hparts hnames hnames₀
  simp only [locate, hnames₀] at hparent'
  have hlast : d.follow directory [name] = .ok target := by
    have hstart : d.startOf p.parent = d.startOf p := rfl
    rwa [follow_append, ← hstart, hfollow₀] at hfollow
  have hdir := (follow_cons hlast).1
  rw [← follow_singleton hdir (hkeep directory houtside hdir)] at hlast
  have hstart : d'.startOf p = d'.startOf p.parent := rfl
  simp only [locate, hnames, hstart, follow_append, hparent', hlast]

end

/-- What moving the file for new content comes to, where it succeeds. -/
theorem moveFile_eq_ok {source : Place} (h : d.moveFile source content p = (d', .ok ())) :
    ∃ target, d.locate p = .ok target ∧ p.parts ≠ [] ∧ p.name ≠ Path.up ∧
      d.node? target ≠ some .directory ∧
      d' = (d.remove source).put target (.file content) := by
  unfold moveFile at h
  split at h
  · cases h
  · next target hlocate =>
    split at h
    · cases h
    · next hparts =>
      split at h
      · cases h
      · next hdir =>
        cases h
        refine ⟨target, hlocate, fun hnil => hparts (.inl ?_), fun hup => hparts (.inr hup), hdir,
          rfl⟩
        rw [hnil]
        rfl

theorem replaceFile_eq_ok (h : d.replaceFile p content = (d', .ok ())) :
    ∃ directory, d.locate p.parent = .ok directory ∧
      (d.put (d.freshPlace directory) (.file content)).moveFile (d.freshPlace directory) content p =
        (d', .ok ()) := by
  unfold replaceFile at h
  split at h
  · cases h
  · next directory hlocate =>
    refine ⟨directory, hlocate, ?_⟩
    dsimp only at h
    split at h
    · cases h
    · split at h
      · next heq =>
        cases h
        exact heq
      · cases h

/-- After a file has been replaced its path leads to the new content. -/
theorem lookup_of_replaceFile (h : d.replaceFile p content = (d', .ok ())) :
    d'.lookup p = .ok (.file content) := by
  obtain ⟨directory, hdirectory, hmove⟩ := replaceFile_eq_ok h
  obtain ⟨hfresh, n, htemporary⟩ := node?_freshPlace d directory
  generalize d.freshPlace directory = temporary at hmove hfresh htemporary
  obtain ⟨target, hlocate, hparts, -, htarget, rfl⟩ := moveFile_eq_ok hmove
  have hne : temporary ≠ [] := by rw [htemporary]; simp
  have houtside : ¬temporary <+: directory := by
    intro hbelow
    have hle := hbelow.length_le
    rw [htemporary, List.length_append, List.length_singleton] at hle
    omega
  -- neither the file for the new content nor its removal touches a directory on the way
  have hput : (d.put temporary (.file content)).locate p.parent = .ok directory := by
    refine locate_congr (d := d) rfl (by rw [hfresh]; simp) (fun q hq hdir => ?_) houtside
      hdirectory
    rw [node?_put_of_ne, hdir]
    rintro rfl
    exact hq List.prefix_rfl
  have hlocate' : (((d.put temporary (.file content)).remove temporary).put target
      (.file content)).locate p = .ok target := by
    refine locate_of_parent (d := d.put temporary (.file content)) rfl
      (by rw [node?_put_self hne]; simp) (fun q hq hdir => ?_) hparts hput houtside hlocate
    rw [node?_put_of_ne, node?_remove_of_not_below hq, hdir]
    rintro rfl
    exact htarget hdir
  have htarget_ne : target ≠ [] := by
    rintro rfl
    exact htarget rfl
  simp only [lookup, hlocate', node?_put_self htarget_ne]

theorem lookup_of_holds (h : d.holds p content = .ok true) : d.lookup p = .ok (.file content) := by
  unfold holds at h
  split at h
  · cases hread : d.readFile p with
    | error e =>
      rw [hread] at h
      cases h
    | ok old =>
      rw [hread] at h
      have heq : (old == content) = true := by simpa [Except.map] using h
      rw [lookup_of_readFile hread, eq_of_beq heq]
  · cases h
  · cases h

/-- A path that has been replaced with a text, or was found to hold it, holds it. -/
theorem holdsText_of_replaceIfChanged {written : Bool}
    (h : d.replaceIfChanged p text = (d', .ok written)) : d'.HoldsText p text := by
  unfold replaceIfChanged at h
  split at h
  · cases h
  · split at h
    · cases h
    · next content hencode =>
      refine ⟨content, hencode, ?_⟩
      split at h
      · cases h
      · next hholds =>
        cases h
        exact lookup_of_holds hholds
      · split at h
        · next hreplace =>
          cases h
          exact lookup_of_replaceFile hreplace
        · cases h

end Disk

end SubclassIndex
