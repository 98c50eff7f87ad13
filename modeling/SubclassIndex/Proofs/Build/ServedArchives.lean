import SubclassIndex.Proofs.Build.ScanLemmas
import SubclassIndex.Proofs.Build.SmallDisk
import SubclassIndex.Proofs.Settings.AcceptedSettings
import SubclassIndex.Proofs.Source.HarvestLemmas

/-!
# What a scan depends on

An archive that is served from its index is not looked into any further: two archives with the same
index leave the same context, whatever else they hold. Where indices are disregarded it is the other
way round, and two archives that differ in their index alone leave the same context or fail alike
(`BuildContext.scanArchive_noninterference`).
-/

namespace SubclassIndex

open Document

/-! ## Archives -/

namespace Dependency

variable [Zip.Library]

variable {x x' : Dependency} {a a' : Zip.Archive} {m m' : Zip.Member} {d : Disk} {name : Text}

/-- The members of an opened archive that have another name than a given one. Each stands for its
own name and for what its content comes to. -/
def entriesBesides (x : Dependency) (name : Text) :
    List (Text × Except Zip.MemberFault Bytes) :=
  match x.archive? with
  | none => []
  | some a => (a.members.filter fun m => !decide (m.name = name)).map fun m => (m.name, a.content m)

/-- Contents can be compared, errors included. -/
instance : DecidableEq (Except Zip.MemberFault Bytes)
  | .ok bytes, .ok bytes' => decidable_of_iff (bytes = bytes') (by simp)
  | .error e, .error e' => decidable_of_iff (e = e') (by simp)
  | .ok _, .error _ => isFalse (by simp)
  | .error _, .ok _ => isFalse (by simp)

theorem opened_eq_ok (h : x.opened d = .ok x') :
    x'.path = x.path ∧ ∃ a, x'.archive? = some a := by
  unfold opened at h
  split at h
  · cases h
  · cases h
  · split at h
    · cases h
    · split at h <;> cases h
      exact ⟨rfl, _, rfl⟩

theorem content_congr (hpath : x.path = x'.path) (hname : m.name = m'.name)
    (hcontent : a.content m = a'.content m') : x.content a m = x'.content a' m' := by
  have hfailure : x.memberFailure m = x'.memberFailure m' := by
    funext fault
    cases fault <;> simp only [memberFailure, hpath, hname]
  unfold content
  rw [hcontent, hfailure]

/-- Only the name and the content of a member count when its class is read. -/
theorem read_congr (hpath : x.path = x'.path) (hname : m.name = m'.name)
    (hcontent : a.content m = a'.content m') : x.read a m = x'.read a' m' := by
  unfold read
  rw [content_congr hpath hname hcontent, hpath, hname]

theorem read_of_not_isClassPath (hne : m.name ≠ [])
    (hclass : ClassName.isClassPath m.name = false) : x.read a m = .ok none := by
  unfold read
  rw [if_neg, hclass]
  · rfl
  · intro hempty
    exact hne (List.isEmpty_iff.1 (Bool.and_eq_true_iff.1 hempty).2)

theorem harvest_of_opened (h : x.archive? = some a) :
    x.harvest = .collect (x.read a) a.members := by
  simp only [harvest, archive, h]

/-- Archives that differ in a member without a class only supply the same classes. -/
theorem harvest_congr (hopen : x.archive? = some a) (hopen' : x'.archive? = some a')
    (hpath : x.path = x'.path) (hne : name ≠ []) (hclass : ClassName.isClassPath name = false)
    (h : x.entriesBesides name = x'.entriesBesides name) : x.harvest = x'.harvest := by
  have hpassed : ∀ (y : Dependency) (b : Zip.Archive) (m : Zip.Member),
      (!decide (m.name = name)) = false → y.read b m = .ok none := by
    intro y b m hm
    have hname : m.name = name := by simpa using hm
    exact read_of_not_isClassPath (hname ▸ hne) (hname ▸ hclass)
  rw [harvest_of_opened hopen, harvest_of_opened hopen', ← Harvest.collect_filter (hpassed x a),
    ← Harvest.collect_filter (hpassed x' a')]
  simp only [entriesBesides, hopen, hopen'] at h
  refine Harvest.collect_congr (fun m m' hkey => ?_) h
  obtain ⟨hname, hcontent⟩ := Prod.mk.inj hkey
  exact read_congr hpath hname hcontent

end Dependency

/-! ## Scans -/

namespace BuildContext

section

variable [Zip.Library]

variable {c : BuildContext} {s : Settings} {d d' : Disk} {x x' : Dependency} {listed text : Text}

theorem consult_congr (hpath : x.path = x'.path)
    (htext : x.text? s.outputPath = x'.text? s.outputPath) : c.consult s x = c.consult s x' := by
  unfold consult Dependency.label
  rw [hpath, htext]

theorem consult_of_disregarded (h : s.usePrecomputed = false) (x : Dependency) :
    c.consult s x = .ok (c, false) := by
  unfold consult
  rw [h]
  rfl

/-- The classes of an archive count only if it is not served from its index. -/
theorem read_congr (hpath : x.path = x'.path) (hconsult : c.consult s x = c.consult s x')
    (hharvest : ∀ c', c.consult s x = .ok (c', false) → x.harvest = x'.harvest) :
    c.read s x listed = c.read s x' listed := by
  unfold read Dependency.label
  rw [← hconsult, hpath]
  split
  · rfl
  · rfl
  · next c' hscanned => rw [hharvest c' hscanned]

theorem scanArchive_text (ho : openedArchive d (.text listed) = .ok x) :
    c.scanArchive s d (.text listed) = skipIfUnreadable listed (c.read s x listed) := by
  obtain ⟨_, heq, hscan⟩ := scanArchive_of_opened (c := c) (s := s) ho
  cases heq
  exact hscan

theorem index?_eq_text? (huse : s.usePrecomputed = true) (hbase : c.requested ≠ []) :
    x.index? s c.requested = x.text? s.outputPath := by
  rw [Dependency.index?, huse, if_neg]
  intro h
  exact hbase (List.isEmpty_iff.1 h)

/-- A served archive adds the names of its index and is listed as served. -/
theorem scanArchive_of_covers (ho : openedArchive d (.text listed) = .ok x)
    (hi : x.index? s c.requested = .ok (some text))
    (hcov : Index.covers s.shape c.requested text = true) : ∃ notes,
    c.scanArchive s d (.text listed) =
      ({ (c.gather s.shape text).1 with served := c.served ++ [listed], notes }, none) := by
  obtain ⟨notes, hread⟩ := read_of_some listed hi
  rw [scanArchive_text ho, hread, hcov, if_pos rfl]
  exact ⟨notes, rfl⟩

/-- The scan of an archive that is served from its index does not depend on its other members, and
with indices disregarded the scan does not depend on the index. -/
theorem scanArchive_noninterference (hs : s.fault? = none)
    (ho : openedArchive d (.text listed) = .ok x)
    (ho' : openedArchive d' (.text listed) = .ok x') :
    (s.usePrecomputed = true → c.requested ≠ [] →
      ∀ text, x.text? s.outputPath = .ok (some text) → x'.text? s.outputPath = .ok (some text) →
        Index.covers s.shape c.requested text = true →
        ∃ c', c.scanArchive s d (.text listed) = (c', none) ∧
          c.scanArchive s d' (.text listed) = (c', none) ∧
          c'.headers = c.headers ∧ c'.served = c.served ++ [listed] ∧ c'.skipped = c.skipped ∧
          c'.requested = c.requested ∧
          ∀ base name, name ∈ c'.embedded.names base ↔ name ∈ c.embedded.names base ∨
            base ∈ Index.basesRead s.shape c.requested ∧
              name ∈ Index.listedFor s.shape text base) ∧
    (s.usePrecomputed = false → ClassName.isClassPath s.outputPath = false →
      x.entriesBesides s.outputPath = x'.entriesBesides s.outputPath →
        c.scanArchive s d (.text listed) = c.scanArchive s d' (.text listed)) := by
  obtain ⟨hpath, a, hopen⟩ := Dependency.opened_eq_ok ho
  obtain ⟨hpath', a', hopen'⟩ := Dependency.opened_eq_ok ho'
  have hsame : x.path = x'.path := hpath.trans hpath'.symm
  constructor
  · intro huse hbase text htext htext' hcov
    have hi : x.index? s c.requested = .ok (some text) := (index?_eq_text? huse hbase).trans htext
    obtain ⟨notes, hscan⟩ := scanArchive_of_covers ho hi hcov
    -- both are consulted alike, and neither scan comes to the classes
    have hserved : ∀ c', c.consult s x ≠ .ok (c', false) := by
      intro c' hconsult
      obtain ⟨notes, hc⟩ := consult_of_some hi
      rw [gather_snd, hcov, hconsult] at hc
      cases hc
    have hread : c.read s x listed = c.read s x' listed :=
      read_congr hsame (consult_congr hsame (htext.trans htext'.symm))
        fun c' hconsult => absurd hconsult (hserved c')
    refine ⟨_, hscan, ?_, ?_⟩
    · rw [scanArchive_text ho', ← hread, ← scanArchive_text ho, hscan]
    · have hgather := gather_fst c s.shape text
      refine ⟨?_, rfl, ?_, ?_, fun base name => mem_names_gather⟩ <;>
      · dsimp only
        rw [hgather]
  · intro huse hclass hentries
    have hharvest := Dependency.harvest_congr hopen hopen' hsame (Settings.outputPath_ne_nil hs)
      hclass hentries
    rw [scanArchive_text ho, scanArchive_text ho', read_congr hsame
      ((consult_of_disregarded huse x).trans (consult_of_disregarded huse x').symm)
      fun _ _ => hharvest]

end

/-! ## Archives with one index -/

/-- An index for the base of the small settings. -/
def smallIndex : Text := "a.B=l.M"

/-- A class that cannot be read, and one that is none. -/
def damagedMembers : List Zip.StoredMember :=
  [⟨"l/M.class", ClassFile.childOf "a/B" 33, 1⟩, ⟨"l/N.class", [0], 0⟩]

def archiveDisk (members : List Zip.StoredMember) : Disk := smallDisk [] [("x", Zip.pack members)]

def damagedDisk : Disk := archiveDisk (⟨"i", smallIndex.flatMap Utf8.bytesOf, 0⟩ :: damagedMembers)

def intactDisk : Disk :=
  archiveDisk [⟨"l/M.class", ClassFile.childOf "a/B" 33, 0⟩,
    ⟨"i", smallIndex.flatMap Utf8.bytesOf, 0⟩]

theorem exists_opened_indexed {d : Disk} (h : d = damagedDisk ∨ d = intactDisk) :
    ∃ x, openedArchive d (.text "x") = .ok x ∧ x.text? "i" = .ok (some smallIndex) := by
  have hread : (openedArchive d (.text "x")).toOption.map
      (fun x => (x.text? "i").toOption.map id) = some (some (some smallIndex)) := by
    rcases h with rfl | rfl <;> decide +kernel
  obtain ⟨x, ho, htext⟩ := exists_ok_of_toOption hread
  obtain ⟨_, htext, rfl⟩ := exists_ok_of_toOption htext
  exact ⟨x, ho, htext⟩

theorem scanArchive_noninterference_damagedDisk :
    let c : BuildContext := { requested := ["a/B"] }
    let disregarding : Settings := { smallSettings with usePrecomputed := false }
    (∃ c', c.scanArchive smallSettings damagedDisk (.text "x") = (c', none) ∧
      c.scanArchive smallSettings intactDisk (.text "x") = (c', none) ∧
      c'.headers = c.headers ∧ c'.served = [("x" : Text)] ∧ c'.skipped = []) ∧
    c.scanArchive disregarding damagedDisk (.text "x") =
      c.scanArchive disregarding (archiveDisk damagedMembers) (.text "x") := by
  intro c disregarding
  obtain ⟨x, ho, htext⟩ := exists_opened_indexed (.inl rfl)
  obtain ⟨x', ho', htext'⟩ := exists_opened_indexed (.inr rfl)
  constructor
  · obtain ⟨c', hscan, hscan', hheaders, hserved, hskipped, _⟩ :=
      (scanArchive_noninterference (c := c) (s := smallSettings) (by decide) ho ho').1 rfl
        (List.cons_ne_nil _ _) smallIndex htext htext' (by decide +kernel)
    exact ⟨c', hscan, hscan', hheaders, hserved, hskipped⟩
  · have hsame : (openedArchive (archiveDisk damagedMembers) (.text "x")).toOption.map
          (fun x => x.entriesBesides "i") =
        (openedArchive damagedDisk (.text "x")).toOption.map fun x => x.entriesBesides "i" := by
      decide +kernel
    rw [ho] at hsame
    obtain ⟨x'', ho'', hentries⟩ := exists_ok_of_toOption hsame
    exact (scanArchive_noninterference (s := disregarding) (by decide) ho ho'').2 rfl
      (by decide) hentries.symm

end BuildContext

end SubclassIndex
