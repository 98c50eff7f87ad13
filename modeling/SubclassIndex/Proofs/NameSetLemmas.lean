import SubclassIndex.NameSet

/-!
# Sets by their members

Two sets with the same members are equal, because a strictly ascending list is determined by its
members.
-/

namespace SubclassIndex

theorem Text.lt_asymm {a b : Text} (h : a < b) : ¬b < a :=
  fun h' => lt_irrefl a (lt_trans h h')

theorem Text.nodup_of_ascending {ts : List Text} (h : ts.Pairwise (· < ·)) : ts.Nodup := by
  refine h.imp ?_
  rintro a _ hlt rfl
  exact lt_irrefl a hlt

/-- A strictly ascending list is determined by its members. -/
theorem Text.eq_of_ascending {as bs : List Text} (ha : as.Pairwise (· < ·))
    (hb : bs.Pairwise (· < ·)) (h : ∀ n, n ∈ as ↔ n ∈ bs) : as = bs := by
  induction as generalizing bs with
  | nil =>
    cases bs with
    | nil => rfl
    | cons b bs => exact absurd ((h b).2 List.mem_cons_self) List.not_mem_nil
  | cons a as ih =>
    cases bs with
    | nil => exact absurd ((h a).1 List.mem_cons_self) List.not_mem_nil
    | cons b bs =>
      obtain ⟨ha', has⟩ := List.pairwise_cons.1 ha
      obtain ⟨hb', hbs⟩ := List.pairwise_cons.1 hb
      -- both heads are the least member of the one set
      have hab : a = b := by
        rcases List.mem_cons.1 ((h a).1 List.mem_cons_self) with hab | hab
        · exact hab
        rcases List.mem_cons.1 ((h b).2 List.mem_cons_self) with hba | hba
        · exact hba.symm
        · exact absurd (ha' b hba) (lt_asymm (hb' a hab))
      subst hab
      refine congrArg _ (ih has hbs fun n => ⟨fun hn => ?_, fun hn => ?_⟩)
      · rcases List.mem_cons.1 ((h n).1 (List.mem_cons_of_mem _ hn)) with rfl | hn'
        · exact absurd (ha' n hn) (lt_irrefl n)
        · exact hn'
      · rcases List.mem_cons.1 ((h n).2 (List.mem_cons_of_mem _ hn)) with rfl | hn'
        · exact absurd (hb' n hn) (lt_irrefl n)
        · exact hn'

namespace NameSet

theorem ext_mem {a b : NameSet} (h : ∀ n, n ∈ a ↔ n ∈ b) : a = b :=
  ext (Text.eq_of_ascending a.ascending b.ascending h)

theorem insertAll_eq_self {s : NameSet} {ns : List Text} (h : ∀ n ∈ ns, n ∈ s) :
    s.insertAll ns = s :=
  ext_mem fun n =>
    ⟨fun hn => (mem_insertAll.1 hn).elim (h n) id, fun hn => mem_insertAll.2 (.inr hn)⟩

theorem nodup_names (s : NameSet) : s.names.Nodup := Text.nodup_of_ascending s.ascending

/-- An ascending list is the list of its set. -/
theorem names_ofList_of_ascending {ts : List Text} (h : ts.Pairwise (· < ·)) :
    (ofList ts).names = ts :=
  Text.eq_of_ascending (ofList ts).ascending h fun _ => mem_ofList

/-- A list without repetitions, sorted, is the list of its set. -/
theorem names_ofList {ts : List Text} (h : ts.Nodup) : (ofList ts).names = Text.sort ts := by
  have hle : ∀ a b : Text, decide (a ≤ b) = true ↔ ¬b < a := fun a b => by
    rw [decide_eq_true_eq, List.not_lt]
  have htrans : ∀ a b c : Text, decide (a ≤ b) = true → decide (b ≤ c) = true →
      decide (a ≤ c) = true := by
    simp only [hle]
    intro a b c hab hbc hca
    by_cases heq : a < b
    · exact hbc (Text.lt_trans hca heq)
    · exact hbc (Text.eq_of_not_lt heq hab ▸ hca)
  have htotal : ∀ a b : Text, (decide (a ≤ b) || decide (b ≤ a)) = true := by
    intro a b
    rw [Bool.or_eq_true, hle, hle]
    by_cases hba : b < a
    · exact .inr (Text.lt_asymm hba)
    · exact .inl hba
  have hperm : (Text.sort ts).Perm ts := List.mergeSort_perm ts _
  have hsorted : (Text.sort ts).Pairwise fun a b => decide (a ≤ b) = true :=
    List.pairwise_mergeSort htrans htotal ts
  have hascending : (Text.sort ts).Pairwise (· < ·) := by
    refine (hsorted.and (hperm.nodup_iff.2 h)).imp ?_
    intro a b ⟨hab, hne⟩
    exact Decidable.byContradiction fun hlt => hne (Text.eq_of_not_lt hlt ((hle a b).1 hab))
  refine Text.eq_of_ascending (ofList ts).ascending hascending fun n => ?_
  rw [hperm.mem_iff]
  exact mem_ofList

end NameSet

end SubclassIndex
