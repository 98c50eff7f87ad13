import SubclassIndex.Proofs.Disk.Tree

/-!
# Written paths

A path that is put together from parts has these parts (`Path.parts_ofText_join`). Whether a path is
too long depends on its names alone, and fewer names make no longer path (`Disk.isTooLong_mono`).
Names that do not lead up lead to themselves in a tree (`Disk.follow_of_tree`), and any names lead
to a place that keeps some of the start and adds some of the names, in their order
(`Disk.exists_of_follow`).
-/

namespace SubclassIndex

/-! ## Parts -/

namespace Path

variable {ts : List Text}

theorem takeWhile_join (h : ∀ t ∈ ts, isPathPart t = true) :
    (Text.join "/" ts).takeWhile (fun c : CodePoint => c = '/') = [] := by
  cases ts with
  | nil => rfl
  | cons t ts =>
    obtain ⟨hne, -, hslash⟩ := DiskName.isPathPart_iff.1 (h t List.mem_cons_self)
    obtain ⟨c, t, rfl⟩ := List.exists_cons_of_ne_nil hne
    have hc : c ≠ '/' := fun heq => hslash (heq ▸ List.mem_cons_self)
    have hhead : ∃ rest, Text.join "/" ((c :: t) :: ts) = c :: rest := by
      by_cases hts : ts = []
      · exact ⟨t, by rw [hts, Text.join_singleton]⟩
      · exact ⟨_, by rw [Text.join_cons hts, List.append_assoc]; rfl⟩
    obtain ⟨rest, heq⟩ := hhead
    rw [heq, List.takeWhile_cons, if_neg (by simpa using hc)]

theorem root_ofText_join (h : ∀ t ∈ ts, isPathPart t = true) :
    (ofText (Text.join "/" ts)).root = .current := by
  rw [ofText, rootOf, takeWhile_join h]
  rfl

theorem parts_ofText_join (hne : ts ≠ []) (h : ∀ t ∈ ts, isPathPart t = true) :
    (ofText (Text.join "/" ts)).parts = ts := by
  have hslash : ∀ t ∈ ts, CodePoint.ofChar '/' ∉ t :=
    fun t ht => (DiskName.isPathPart_iff.1 (h t ht)).2.2
  have hsplit : (Text.join "/" ts).splitOnPoint '/' = ts := Text.splitOnPoint_join hne hslash
  change ((Text.join "/" ts).splitOnPoint '/').filter isPathPart = ts
  rw [hsplit]
  exact List.filter_eq_self.2 h

theorem text_eq {p : Path} (h : p.parts ≠ []) :
    p.text = rootText p.root ++ Text.join "/" p.parts := by
  unfold text
  split
  · next hparts => exact absurd hparts h
  · rfl

end Path

namespace DiskName

variable {ts : List Text} {ns ns' : List DiskName}

theorem mapM_ofText?_map_toText (ns : List DiskName) :
    (ns.map toText).mapM ofText? = some ns := by
  induction ns with
  | nil => rfl
  | cons n ns ih => rw [List.map_cons, List.mapM_cons, ofText?_toText, ih]; rfl

theorem mapM_ofText?_cons {t : Text} : (t :: ts).mapM ofText? = some ns ↔
    ∃ n rest, ofText? t = some n ∧ ts.mapM ofText? = some rest ∧ n :: rest = ns := by
  simp only [List.mapM_cons, Option.bind_eq_bind, Option.bind_eq_some_iff, Option.pure_def,
    Option.some.injEq]
  constructor
  · rintro ⟨n, hn, rest, hrest, rfl⟩
    exact ⟨n, rest, hn, hrest, rfl⟩
  · rintro ⟨n, rest, hn, hrest, rfl⟩
    exact ⟨n, hn, rest, hrest, rfl⟩

theorem exists_of_mem_mapM {n : DiskName} (h : ts.mapM ofText? = some ns) (hn : n ∈ ns) :
    ∃ t ∈ ts, ofText? t = some n := by
  induction ts generalizing ns with
  | nil =>
    cases h
    cases hn
  | cons t ts ih =>
    obtain ⟨n', rest, hn', hrest, rfl⟩ := mapM_ofText?_cons.1 h
    rcases List.mem_cons.1 hn with rfl | hn
    · exact ⟨t, List.mem_cons_self, hn'⟩
    · obtain ⟨t', ht', hspelled⟩ := ih hrest hn
      exact ⟨t', List.mem_cons_of_mem _ ht', hspelled⟩

theorem ofText?_join (h : ts.mapM ofText? = some ns) :
    ofText? (Text.join "/" ts) = some (List.intercalate [0x2F] ns) := by
  induction ts generalizing ns with
  | nil =>
    cases h
    rfl
  | cons t ts ih =>
    obtain ⟨n, rest, hn, hrest, rfl⟩ := mapM_ofText?_cons.1 h
    cases ts with
    | nil =>
      cases hrest
      rw [Text.join_singleton, hn]
      simp
    | cons t' ts =>
      have hslash : ofText? "/" = some [0x2F] := by decide
      have hjoin := ofText?_append (ofText?_append hn hslash) (ih hrest)
      obtain ⟨n', rest', -, -, rfl⟩ := mapM_ofText?_cons.1 hrest
      rw [Text.join_cons (List.cons_ne_nil _ _), hjoin, List.intercalate_cons_cons]

theorem length_intercalate_le_cons (n : DiskName) (ns : List DiskName) :
    (List.intercalate [0x2F] ns).length ≤ (List.intercalate [0x2F] (n :: ns)).length := by
  cases ns with
  | nil => exact Nat.zero_le _
  | cons n' ns =>
    rw [List.intercalate_cons_cons, List.length_append]
    exact Nat.le_add_left _ _

/-- Fewer names take no more bytes. -/
theorem length_intercalate_le (h : ns.Sublist ns') :
    (List.intercalate [0x2F] ns).length ≤ (List.intercalate [0x2F] ns').length := by
  induction h with
  | slnil => exact Nat.le_refl _
  | cons n _ ih => exact Nat.le_trans ih (length_intercalate_le_cons n _)
  | @cons_cons ns ns' n hsub ih =>
    cases ns with
    | nil =>
      cases ns' with
      | nil => exact Nat.le_refl _
      | cons n' ns' =>
        rw [List.intercalate_singleton, List.intercalate_cons_cons, List.append_assoc,
          List.length_append]
        exact Nat.le_add_right _ _
    | cons m ns =>
      cases ns' with
      | nil => cases hsub
      | cons n' ns' =>
        rw [List.intercalate_cons_cons, List.intercalate_cons_cons]
        simp only [List.length_append]
        omega

end DiskName

/-! ## Lengths -/

namespace Disk

variable {d : Disk} {p p' : Path} {place q : Place} {names names' : List DiskName}

theorem length_text (hparts : p.parts ≠ []) (h : p.parts.mapM DiskName.ofText? = some names) :
    ((DiskName.ofText? p.text).getD []).length =
      (Path.rootText p.root).length + (List.intercalate [0x2F] names).length := by
  have hroot : ∃ bytes, DiskName.ofText? (Path.rootText p.root) = some bytes ∧
      bytes.length = (Path.rootText p.root).length := by
    cases p.root <;> exact ⟨_, rfl, rfl⟩
  obtain ⟨bytes, hbytes, hlen⟩ := hroot
  rw [Path.text_eq hparts, DiskName.ofText?_append hbytes (DiskName.ofText?_join h),
    Option.getD_some, List.length_append, hlen]

/-- A path with more names is too long if one with fewer is. -/
theorem isTooLong_mono (hroot : p.root = p'.root) (hparts : p.parts ≠ [])
    (h : p.parts.mapM DiskName.ofText? = some names)
    (h' : p'.parts.mapM DiskName.ofText? = some names') (hsub : names.Sublist names')
    (hlong : isTooLong p = true) : isTooLong p' = true := by
  have hparts' : p'.parts ≠ [] := by
    intro hnil
    rw [hnil] at h'
    cases h'
    obtain ⟨t, ts, hcons⟩ := List.exists_cons_of_ne_nil hparts
    rw [hcons] at h
    obtain ⟨n, rest, -, -, rfl⟩ := DiskName.mapM_ofText?_cons.1 h
    cases hsub
  simp only [isTooLong, decide_eq_true_eq] at hlong ⊢
  rw [length_text hparts h] at hlong
  rw [length_text hparts' h', ← hroot]
  have hle := DiskName.length_intercalate_le hsub
  omega

/-! ## Following -/

/-- Names that do not lead up lead to what they name, if it is there. -/
theorem follow_of_tree (hd : d.IsTree) (hnode : d.node? (place ++ names) ≠ none) :
    d.follow place names = .ok (place ++ names) := by
  induction names generalizing place with
  | nil => rw [follow, List.append_nil]
  | cons name names ih =>
    have hname := hd.proper_of_mem hnode name (by simp)
    have hdir : d.node? place = some .directory := by
      refine (hd.eq_or_directory (List.prefix_append place _) hnode).resolve_left fun heq => ?_
      have hlen := congrArg List.length heq
      simp at hlen
    rw [List.append_cons] at hnode ⊢
    simp only [follow, hdir, if_neg hname.ne_up, if_neg (Nat.not_lt_of_le hname.length_le)]
    exact ih hnode

/-- Where names lead that do not lead up. -/
theorem eq_append_of_follow (hup : upName ∉ names) (h : d.follow place names = .ok q) :
    q = place ++ names := by
  induction names generalizing place with
  | nil =>
    cases h
    exact (List.append_nil _).symm
  | cons name names ih =>
    obtain ⟨hname, hnames⟩ := List.ne_and_not_mem_of_not_mem_cons hup
    obtain ⟨-, ⟨heq, -⟩ | ⟨-, -, h⟩⟩ := follow_cons h
    · exact absurd heq.symm hname
    · rw [ih hnames h, List.append_assoc]
      rfl

theorem upName_not_mem (h : namesOf p = .ok names) (hup : Path.up ∉ p.parts) : upName ∉ names := by
  intro hmem
  obtain ⟨t, ht, hspelled⟩ := DiskName.exists_of_mem_mapM (namesOf_eq_ok h) hmem
  rw [DiskName.text_eq_of_ascii hspelled (by decide +kernel)] at ht
  exact hup ht

/-- Names lead to a place that keeps some of the start and adds some of the names. -/
theorem exists_of_follow (h : d.follow place names = .ok q) :
    ∃ kept added, q = place.take kept ++ added ∧ added.Sublist names := by
  induction names generalizing place with
  | nil =>
    cases h
    exact ⟨q.length, [], by simp, List.nil_sublist _⟩
  | cons name names ih =>
    obtain ⟨-, ⟨-, h⟩ | ⟨-, -, h⟩⟩ := follow_cons h
    · obtain ⟨kept, added, rfl, hsub⟩ := ih h
      refine ⟨min kept (place.length - 1), added, ?_, hsub.cons name⟩
      rw [List.dropLast_eq_take, List.take_take]
    · obtain ⟨kept, added, rfl, hsub⟩ := ih h
      by_cases hkept : kept ≤ place.length
      · refine ⟨kept, added, ?_, hsub.cons name⟩
        rw [List.take_append_of_le_length hkept]
      · refine ⟨place.length, name :: added, ?_, hsub.cons_cons name⟩
        rw [List.take_of_length_le, List.take_length, List.append_assoc]
        · rfl
        · rw [List.length_append, List.length_singleton]
          omega

/-- Below the start names lead to some of them. -/
theorem sublist_of_follow {rel : List DiskName} (h : d.follow place names = .ok (place ++ rel)) :
    rel.Sublist names := by
  obtain ⟨kept, added, hadded, hsub⟩ := exists_of_follow h
  have hdrop : rel = (place.take kept ++ added).drop place.length := by
    rw [← hadded, List.drop_left]
  rw [hdrop, List.drop_append, List.drop_eq_nil_of_le, List.nil_append]
  · exact (List.drop_sublist _ _).trans hsub
  · rw [List.length_take]
    exact Nat.min_le_right _ _

/-- On the way names lead to directories. -/
theorem exists_of_follow_append (h : d.follow place (names ++ names') = .ok r) :
    ∃ q, d.follow place names = .ok q ∧ (d.node? q = some .directory ∨ q = r) := by
  rw [follow_append] at h
  split at h
  · next q hq =>
    refine ⟨q, hq, ?_⟩
    cases names' with
    | nil => exact .inr (Except.ok.inj h)
    | cons name names' => exact .inl (follow_cons h).1
  · cases h

end Disk

end SubclassIndex
