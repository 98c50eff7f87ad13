import SubclassIndex.Proofs.Build.Collected
import SubclassIndex.Proofs.Build.SmallDisk
import SubclassIndex.Proofs.Disk.Replacing

/-!
# Atomic writes

Saving a text replaces one file as a whole or touches none, and a run that fails leaves every file
as it was (`replaceIfChanged_atomic`).
-/

namespace SubclassIndex

/-! ## Saving -/

section
variable {d d' : Disk} {p : Path} {text : Text} {outcome : Except DiskFault Bool}

theorem Disk.replaceIfChanged_eq_false_iff (hd : d.IsTree) :
    (d.replaceIfChanged p text).2 = .ok false ↔
      ∃ made above, d.makeDirectories Disk.maxMissing p.parent = (made, .ok above) ∧
        made.HoldsText p text := by
  constructor
  · intro hkept
    have hsave : d.replaceIfChanged p text = ((d.replaceIfChanged p text).1, .ok false) :=
      Prod.ext rfl hkept
    obtain ⟨made, -, ⟨e, he, -⟩ | ⟨above, hmake, ⟨-, -, hholds⟩ | ⟨hwritten, -⟩⟩⟩ :=
      Disk.replaceIfChanged_cases hd hsave
    · cases he
    · exact ⟨made, above, hmake, hholds⟩
    · cases hwritten
  · rintro ⟨made, above, hmake, hholds⟩
    rw [Disk.replaceIfChanged_of_holdsText hmake hholds]

theorem Disk.fileAt?_of_not_written (hd : d.IsTree) (h : d.replaceIfChanged p text = (d', outcome))
    (hout : outcome ≠ .ok true) (q : Place) : d'.fileAt? q = d.fileAt? q := by
  obtain ⟨made, hgrown, ⟨_, -, hsame⟩ | ⟨_, -, ⟨-, rfl, -⟩ | ⟨hwritten, -⟩⟩⟩ :=
    Disk.replaceIfChanged_cases hd h
  · rw [Disk.fileAt?, hsame q]
    exact hgrown.fileAt? q
  · exact hgrown.fileAt? q
  · exact absurd hwritten hout

theorem Disk.holdsText_of_written (hd : d.IsTree)
    (h : d.replaceIfChanged p text = (d', .ok true)) :
    d'.HoldsText p text ∧ ∀ q, d'.locate p ≠ .ok q → d'.fileAt? q = d.fileAt? q := by
  obtain ⟨made, hgrown, ⟨e, he, -⟩ | ⟨_, -, ⟨hkept, -⟩ | ⟨-, content, hencode, hreplaced⟩⟩⟩ :=
    Disk.replaceIfChanged_cases hd h
  · cases he
  · cases hkept
  · exact ⟨hreplaced.holdsText hencode,
      fun q hq => (hreplaced.fileAt? hq).trans (hgrown.fileAt? q)⟩

end

/-- Saving a text says that nothing had to be written exactly where the path, once its directories
are made, leads to a file with this text. Then no file changes; otherwise the file that the path
leads to comes to hold the text and no other file comes or goes or changes, or the attempt fails and
no file does. So a run that fails leaves every file as it was. -/
theorem replaceIfChanged_atomic [Zip.Library] {d : Disk} (hd : d.IsTree) (p : Path) (text : Text) :
    ((d.replaceIfChanged p text).2 = .ok false ↔
      ∃ made above, d.makeDirectories Disk.maxMissing p.parent = (made, .ok above) ∧
        made.HoldsText p text) ∧
    ((d.replaceIfChanged p text).2 = .ok false →
      ∀ q, (d.replaceIfChanged p text).1.fileAt? q = d.fileAt? q) ∧
    ((d.replaceIfChanged p text).2 = .ok true →
      (d.replaceIfChanged p text).1.HoldsText p text ∧
        ∀ q, (d.replaceIfChanged p text).1.locate p ≠ .ok q →
          (d.replaceIfChanged p text).1.fileAt? q = d.fileAt? q) ∧
    (∀ e, (d.replaceIfChanged p text).2 = .error e →
      ∀ q, (d.replaceIfChanged p text).1.fileAt? q = d.fileAt? q) ∧
    ∀ (s : Settings) (e : Failure), (run s d).2.value = .error e →
      ∀ q, (run s d).1.fileAt? q = d.fileAt? q := by
  have hsave : ∀ outcome, (d.replaceIfChanged p text).2 = outcome →
      d.replaceIfChanged p text = ((d.replaceIfChanged p text).1, outcome) :=
    fun outcome h => Prod.ext rfl h
  refine ⟨Disk.replaceIfChanged_eq_false_iff hd, fun hkept => ?_, fun hwritten => ?_,
    fun e he => ?_, fun s e he q => ?_⟩
  · exact Disk.fileAt?_of_not_written hd (hsave _ hkept) nofun
  · exact Disk.holdsText_of_written hd (hsave _ hwritten)
  · exact Disk.fileAt?_of_not_written hd (hsave _ he) nofun
  · rcases run_eq_error he with hsame | ⟨text, fault, hfault⟩
    · rw [hsame]
    · exact Disk.fileAt?_of_not_written hd hfault nofun q

/-- A disk with a directory `c`, and a file `o` that holds one letter. -/
def letterDisk : Disk := smallDisk [] [("o", [0x61])]

theorem replaceIfChanged_atomic_letterDisk :
    letterDisk.IsTree ∧
    (letterDisk.replaceIfChanged ("o" : Text) "a").2 = .ok false ∧
    (letterDisk.replaceIfChanged ("n/o" : Text) "b").1.HoldsText ("n/o" : Text) "b" ∧
    (letterDisk.replaceIfChanged ("n/o" : Text) "b").1.fileAt? [[0x6F]] = some [0x61] ∧
    (letterDisk.replaceIfChanged ("c" : Text) "b").2 = .error .isADirectory ∧
    ∀ q, (letterDisk.replaceIfChanged ("c" : Text) "b").1.fileAt? q = letterDisk.fileAt? q := by
  have hd : letterDisk.IsTree := by decide +kernel
  have hkept : ∃ made above, letterDisk.makeDirectories Disk.maxMissing (Path.ofText "o").parent =
      (made, .ok above) ∧ made.HoldsText ("o" : Text) "a" :=
    ⟨letterDisk, [], rfl, [0x61], by decide +kernel, by decide +kernel⟩
  obtain ⟨hholds, hframe⟩ :=
    (replaceIfChanged_atomic hd ("n/o" : Text) "b").2.2.1 (by decide +kernel)
  have hrefused : (letterDisk.replaceIfChanged ("c" : Text) "b").2 = .error .isADirectory := by
    decide +kernel
  exact ⟨hd, (replaceIfChanged_atomic hd ("o" : Text) "a").1.2 hkept, hholds,
    (hframe [[0x6F]] (by decide +kernel)).trans (by decide +kernel), hrefused,
    (replaceIfChanged_atomic hd ("c" : Text) "b").2.2.2.1 _ hrefused⟩

end SubclassIndex
