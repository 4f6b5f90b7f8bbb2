import Mathlib.Data.List.Nodup
import TypedAssets.Naming
import TypedAssets.Pack.Module
import TypedAssets.Proofs.Fields

/-!
# Manifests whose names can live in one module

`problems_eq_nil_iff`: nothing is wrong with the names of a manifest exactly when the fields of its
assets are pairwise distinct, no field is a keyword and no name is taken. The scan of the names keeps
the fields seen so far with their owners; `fieldProblems_eq_nil_iff` says what it checks from any
such owners on.
-/

namespace TypedAssets.Naming

open Words

theorem fieldProblem?_eq_none_iff {owners : Fields String} {name : String} :
    fieldProblem? owners name = none ↔
      camelCase name ∉ keywords ∧ camelCase name ∉ owners.names := by
  rw [← Fields.isSome_get?_iff]
  unfold fieldProblem?
  dsimp only
  split
  · next h => simp [h]
  · next h => simp [h]

theorem reservedProblem?_eq_none_iff {name : String} :
    reservedProblem? name = none ↔ name ∉ reserved := by
  simp [reservedProblem?]

theorem fieldProblems_eq_nil_iff (owners : Fields String) (names : List String) :
    fieldProblems owners names = [] ↔
      (names.map camelCase).Nodup ∧
        ∀ name ∈ names,
          camelCase name ∉ keywords ∧ camelCase name ∉ owners.names ∧ name ∉ reserved := by
  induction names generalizing owners with
  | nil => simp [fieldProblems]
  | cons name names ih =>
    rw [fieldProblems]
    simp only [List.append_eq_nil_iff, Option.toList_eq_nil_iff, reservedProblem?_eq_none_iff]
    constructor
    · rintro ⟨⟨hp, hr⟩, hrest⟩
      obtain ⟨hk, ho⟩ := fieldProblem?_eq_none_iff.1 hp
      simp only [hp, Option.isNone_none, if_true] at hrest
      obtain ⟨hnd, hall⟩ := (ih _).1 hrest
      have hfresh : ∀ n ∈ names, camelCase n ∉ owners.names ∧ camelCase n ≠ camelCase name := by
        intro n hn
        have := (hall n hn).2.1
        rwa [Fields.mem_names_set, not_or] at this
      refine ⟨List.nodup_cons.2 ⟨fun hmem => ?_, hnd⟩, fun n hn => ?_⟩
      · obtain ⟨n, hn, he⟩ := List.mem_map.1 hmem
        exact (hfresh n hn).2 he
      · rcases List.mem_cons.1 hn with rfl | hn
        · exact ⟨hk, ho, hr⟩
        · exact ⟨(hall n hn).1, (hfresh n hn).1, (hall n hn).2.2⟩
    · rintro ⟨hnd, hall⟩
      obtain ⟨hk, ho, hr⟩ := hall name List.mem_cons_self
      have hp : fieldProblem? owners name = none := fieldProblem?_eq_none_iff.2 ⟨hk, ho⟩
      simp only [hp, Option.isNone_none, if_true, hr, true_and, not_false_eq_true]
      obtain ⟨hmem, hnd⟩ := List.nodup_cons.1 hnd
      refine (ih _).2 ⟨hnd, fun n hn => ?_⟩
      obtain ⟨hk, ho', hr⟩ := hall n (List.mem_cons_of_mem _ hn)
      refine ⟨hk, ?_, hr⟩
      rw [Fields.mem_names_set, not_or]
      exact ⟨ho', fun he => hmem (he ▸ List.mem_map_of_mem hn)⟩

theorem duplicates_eq_nil_iff {names : List String} : duplicates names = [] ↔ names.Nodup := by
  rw [duplicates, List.map_eq_nil_iff, List.filter_eq_nil_iff, List.nodup_iff_count]
  simp only [List.mem_eraseDups, decide_eq_true_eq, Nat.not_lt]
  constructor
  · intro h name
    by_cases hn : name ∈ names
    · exact h name hn
    · rw [List.count_eq_zero.2 hn]
      exact Nat.zero_le 1
  · exact fun h name _ => h name

/-- Nothing is wrong with the names of a manifest exactly when its fields are pairwise distinct, none
of them is a keyword and no name is taken. -/
theorem problems_eq_nil_iff (m : Manifest) :
    problems m = [] ↔
      (m.assets.map Asset.field).Nodup ∧
        ∀ a ∈ m.assets, a.field ∉ keywords ∧ a.name ∉ reserved := by
  have hfields : m.names.map camelCase = m.assets.map Asset.field := by
    rw [Manifest.names, List.map_map]
    rfl
  rw [problems, List.append_eq_nil_iff, duplicates_eq_nil_iff]
  constructor
  · rintro ⟨hnd, hp⟩
    have huses : (m.names.filter fun name => m.names.count name = 1) = m.names :=
      List.filter_eq_self.2 fun name hn => by simp [List.count_eq_one_of_mem hnd hn]
    rw [huses, fieldProblems_eq_nil_iff, hfields] at hp
    refine ⟨hp.1, fun a ha => ?_⟩
    obtain ⟨hk, -, hr⟩ := hp.2 a.name (List.mem_map_of_mem ha)
    exact ⟨hk, hr⟩
  · rintro ⟨hnd, hall⟩
    rw [← hfields] at hnd
    refine ⟨List.Nodup.of_map _ hnd, (fieldProblems_eq_nil_iff _ _).2 ⟨?_, fun name hn => ?_⟩⟩
    · exact hnd.sublist (List.filter_sublist.map _)
    · obtain ⟨a, ha, rfl⟩ := List.mem_map.1 (List.mem_filter.1 hn).1
      exact ⟨(hall a ha).1, by simp [Fields.names], (hall a ha).2⟩

end TypedAssets.Naming
