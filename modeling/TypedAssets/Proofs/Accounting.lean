import Mathlib.Data.Finset.Card
import Mathlib.Data.List.Induction
import TypedAssets.Proofs.Naming

/-!
# Every naming problem accounted for

The scan of the names keeps the fields seen so far with their owners and skips what is repeated. What it reports
can be told without it (`fieldProblems_eq_flatMap`): the fault of the field of an asset is that it is a keyword,
or else that the first asset with this field is another one. The number of problems does not depend on which of
several assets with one field comes first: all but one of them have a problem, whatever the order, and all of
them if the field is a keyword (`length_fieldProblems`). `problems_accounting` puts this together for manifests.
-/

namespace TypedAssets

/-- The assets whose name no other asset has. -/
def Manifest.uniques (m : Manifest) : List Asset := m.assets.filter fun a => m.names.count a.name = 1

namespace Naming

open Words

theorem toList_reservedProblem? (name : String) :
    (reservedProblem? name).toList = if name ∈ reserved then [.reserved name] else [] := by
  unfold reservedProblem?
  split <;> rfl

section

variable {owners : Fields String} {seen rest us : List Asset} {a b : Asset}

/-- What is wrong with the field of an asset among others: it is a keyword, or else the first asset with this
field is another one. -/
def fieldFault? (us : List Asset) (a : Asset) : Option Problem :=
  if a.field ∈ keywords then some (.keyword a.name a.field)
  else match us.find? fun b => b.field = a.field with
    | none => none
    | some b => if b = a then none else some (.collision b.name a.name a.field)

/-- What is wrong with an asset among others that all have names of their own. -/
def faults (us : List Asset) (a : Asset) : List Problem :=
  (fieldFault? us a).toList ++ if a.name ∈ reserved then [.reserved a.name] else []

/-- The owner of a field, unless it is a keyword, is the first asset with it. -/
def Owns (owners : Fields String) (seen : List Asset) : Prop :=
  ∀ f, owners.get? f = if f ∈ keywords then none else (seen.find? fun b => b.field = f).map Asset.name

theorem owns_nil : Owns [] [] := by
  intro f
  simp [Fields.get?]

/-- An asset whose field is a keyword, or owned already, comes to own nothing. -/
theorem Owns.skip (h : Owns owners seen) (ha : a.field ∈ keywords ∨ ∃ b ∈ seen, b.field = a.field) :
    Owns owners (seen ++ [a]) := by
  intro f
  rw [h f, List.find?_append]
  by_cases hf : a.field = f
  · subst hf
    rcases ha with ha | ⟨b, hb, hba⟩
    · rw [if_pos ha, if_pos ha]
    · have hsome : (seen.find? fun b => b.field = a.field).isSome := by
        rw [List.find?_isSome]
        exact ⟨b, hb, by simpa using hba⟩
      rw [Option.or_of_isSome hsome]
  · simp [hf]

theorem Owns.set (h : Owns owners seen) (hk : a.field ∉ keywords) (hnew : ∀ b ∈ seen, b.field ≠ a.field) :
    Owns (owners.set a.field a.name) (seen ++ [a]) := by
  intro f
  rw [List.find?_append]
  by_cases hf : a.field = f
  · subst hf
    have hnone : (seen.find? fun b => b.field = a.field) = none := by simpa using hnew
    simp [Fields.get?_set_self, hk, hnone]
  · rw [Fields.get?_set_of_ne hf, h f]
    simp [hf]

/-- The scan finds the fault of one asset, and the owners know that asset afterwards. -/
theorem Owns.step (h : Owns owners seen) (hfresh : ∀ b ∈ seen, b.name ≠ a.name) (rest : List Asset) :
    fieldProblem? owners a.name = fieldFault? (seen ++ a :: rest) a ∧
      Owns (if (fieldProblem? owners a.name).isNone then owners.set a.field a.name else owners)
        (seen ++ [a]) := by
  have hfield : camelCase a.name = a.field := rfl
  by_cases hk : a.field ∈ keywords
  · have hp : fieldProblem? owners a.name = some (.keyword a.name a.field) := by
      simp [fieldProblem?, hfield, hk]
    rw [hp]
    exact ⟨by rw [fieldFault?, if_pos hk], by simpa using h.skip (.inl hk)⟩
  · have howner := h a.field
    rw [if_neg hk] at howner
    cases hfind : seen.find? fun b => b.field = a.field with
    | none =>
      have hnew : ∀ b ∈ seen, b.field ≠ a.field := by simpa using hfind
      have hp : fieldProblem? owners a.name = none := by
        simp [fieldProblem?, hfield, hk, howner, hfind]
      rw [hp]
      refine ⟨?_, by simpa using h.set hk hnew⟩
      simp [fieldFault?, hk, List.find?_append, hfind]
    | some b =>
      have hb : b ∈ seen := List.mem_of_find?_eq_some hfind
      have hba : b.field = a.field := by simpa using List.find?_some hfind
      have hne : b ≠ a := fun he => hfresh b hb (congrArg Asset.name he)
      have hp : fieldProblem? owners a.name = some (.collision b.name a.name a.field) := by
        simp [fieldProblem?, hfield, hk, howner, hfind]
      rw [hp]
      refine ⟨?_, by simpa using h.skip (.inr ⟨b, hb, hba⟩)⟩
      simp [fieldFault?, hk, List.find?_append, hfind, hne]

theorem fieldProblems_eq_flatMap (h : Owns owners seen) (hnd : ((seen ++ rest).map Asset.name).Nodup) :
    fieldProblems owners (rest.map Asset.name) = rest.flatMap (faults (seen ++ rest)) := by
  -- the owners grow along the scan, and what has been scanned moves from `rest` to `seen`
  induction rest generalizing owners seen with
  | nil => rfl
  | cons a rest ih =>
    have hfresh : ∀ b ∈ seen, b.name ≠ a.name := by
      intro b hb he
      rw [List.map_append, List.nodup_append] at hnd
      exact hnd.2.2 b.name (List.mem_map_of_mem hb) a.name (by simp) he
    obtain ⟨hp, hown⟩ := h.step hfresh rest
    have hsplit : seen ++ a :: rest = seen ++ [a] ++ rest := by simp
    rw [hsplit] at hnd
    have hrest := ih hown hnd
    rw [← hsplit] at hrest
    rw [List.map_cons, fieldProblems, List.flatMap_cons, faults, ← hp, ← hrest, toList_reservedProblem?]
    rfl

end

theorem card_insert_sdiff {s t : Finset String} {x : String} (hx : x ∉ t) :
    (insert x s \ t).card = (s \ insert x t).card + 1 := by
  rw [Finset.sdiff_insert, ← Finset.erase_insert_eq_erase, Finset.card_erase_add_one (Finset.mem_insert_self x _),
    Finset.insert_sdiff_of_notMem s hx]

/-- Of the assets with one new field all but one have a problem, and all of them if the field is a keyword. -/
theorem length_fieldProblems (owners : Fields String) (names : List String) :
    (fieldProblems owners names).length +
        ((names.map camelCase).toFinset \ (keywords ++ owners.names).toFinset).card =
      names.length + names.countP (· ∈ reserved) := by
  induction names generalizing owners with
  | nil => simp [fieldProblems]
  | cons name names ih =>
    have hnone : fieldProblem? owners name = none ↔ camelCase name ∉ keywords ++ owners.names := by
      rw [fieldProblem?_eq_none_iff, List.mem_append, not_or]
    rw [fieldProblems, List.map_cons, List.toFinset_cons, List.countP_cons]
    have hreserved : (reservedProblem? name).toList.length = if name ∈ reserved then 1 else 0 := by
      rw [toList_reservedProblem?]
      split <;> rfl
    simp only [List.length_append, hreserved, List.length_cons, decide_eq_true_eq]
    by_cases hf : camelCase name ∈ keywords ++ owners.names
    · obtain ⟨p, hp⟩ := Option.ne_none_iff_exists'.1 fun h => hnone.1 h hf
      have := ih owners
      rw [Finset.insert_sdiff_of_mem _ (List.mem_toFinset.2 hf), hp]
      simp only [Option.isNone_some, Bool.false_eq_true, if_false, Option.toList_some, List.length_singleton]
      omega
    · have hp := hnone.2 hf
      have hnames : (owners.set (camelCase name) name).names = owners.names ++ [camelCase name] :=
        Fields.names_set_of_not_mem fun h => hf (List.mem_append_right _ h)
      have := ih (owners.set (camelCase name) name)
      have htaken : (keywords ++ (owners.set (camelCase name) name).names).toFinset =
          insert (camelCase name) (keywords ++ owners.names).toFinset := by
        ext x
        simp [hnames, or_comm, or_assoc]
      rw [htaken] at this
      rw [card_insert_sdiff fun h => hf (List.mem_toFinset.1 h), hp]
      simp only [Option.isNone_none, if_true, Option.toList_none, List.length_nil]
      omega

/-- Distinct names, in the order of their first use. -/
theorem pairwise_eraseDups (names : List String) :
    names.eraseDups.Pairwise fun x y => names.idxOf x < names.idxOf y := by
  -- from the end: a name at the end is either there already or comes after all others
  induction names using List.reverseRecOn with
  | nil => simp
  | append_singleton names name ih =>
    have hold : names.eraseDups.Pairwise fun x y => (names ++ [name]).idxOf x < (names ++ [name]).idxOf y := by
      refine ih.imp_of_mem fun {x y} hx hy hxy => ?_
      rwa [List.idxOf_append_of_mem (by simpa using hx), List.idxOf_append_of_mem (by simpa using hy)]
    rw [List.eraseDups_append]
    by_cases hname : name ∈ names
    · simpa [List.removeAll, hname] using hold
    · have hlast : [name].removeAll names = [name] := by simp [List.removeAll, hname]
      rw [hlast, List.pairwise_append]
      refine ⟨hold, by simp [List.eraseDups_cons], fun x hx y hy => ?_⟩
      have hx : x ∈ names := by simpa using hx
      obtain rfl : y = name := by simpa [List.eraseDups_cons] using hy
      rw [List.idxOf_append_of_mem hx, List.idxOf_append_of_notMem hname]
      have := List.idxOf_lt_length_of_mem hx
      omega

theorem nodup_eraseDups (names : List String) : names.eraseDups.Nodup :=
  (pairwise_eraseDups names).imp fun h he => absurd h (by simp [he])

theorem perm_eraseDups {names names' : List String} (h : names'.Perm names) :
    names'.eraseDups.Perm names.eraseDups := by
  refine (List.perm_ext_iff_of_nodup (nodup_eraseDups _) (nodup_eraseDups _)).2 fun x => ?_
  rw [List.mem_eraseDups, List.mem_eraseDups, h.mem_iff]

/-- The problems of repeated names, in the order of their first uses, and then the problems of each other asset.
-/
theorem problems_eq (m : Manifest) : problems m = duplicates m.names ++ m.uniques.flatMap (faults m.uniques) := by
  have hnames : (m.names.filter fun name => m.names.count name = 1) = m.uniques.map Asset.name := by
    rw [Manifest.names, Manifest.uniques, List.filter_map]
    rfl
  have hnd : (m.uniques.map Asset.name).Nodup := by
    rw [← hnames, List.nodup_iff_count]
    intro name
    by_cases h : m.names.count name = 1
    · exact (List.filter_sublist.count_le name).trans h.le
    · rw [List.count_eq_zero.2 (by simp [h])]
      exact Nat.zero_le 1
  have hscan : fieldProblems [] (m.uniques.map Asset.name) = m.uniques.flatMap (faults ([] ++ m.uniques)) :=
    fieldProblems_eq_flatMap owns_nil hnd
  rw [problems, hnames, hscan, List.nil_append]

theorem length_problems_perm {m m' : Manifest} (h : m'.names.Perm m.names) :
    (problems m').length = (problems m).length := by
  have hcount : ∀ name, m'.names.count name = m.names.count name := fun name => h.count_eq name
  have hrepeated : (duplicates m'.names).length = (duplicates m.names).length := by
    rw [duplicates, duplicates, List.length_map, List.length_map]
    simp only [hcount]
    exact ((perm_eraseDups h).filter _).length_eq
  have hunique : (m'.names.filter fun name => m'.names.count name = 1).Perm
      (m.names.filter fun name => m.names.count name = 1) := by
    simp only [hcount]
    exact h.filter _
  have hlen := length_fieldProblems [] (m.names.filter fun name => m.names.count name = 1)
  have hlen' := length_fieldProblems [] (m'.names.filter fun name => m'.names.count name = 1)
  rw [List.toFinset_eq_of_perm _ _ (hunique.map camelCase), hunique.length_eq, hunique.countP_eq] at hlen'
  rw [problems, problems, List.length_append, List.length_append]
  omega

/-- The problems of the names of a manifest are one for each name that is used more than once, in the order of
first uses and with the number of uses, and then the faults of each asset with a name of its own, in the order of
the manifest. There are none exactly if the fields are distinct, no field is a keyword and no name is taken, and
their number depends on nothing but how often each name is used. -/
theorem problems_accounting (m : Manifest) :
    (∃ repeated : List String, (∀ name, name ∈ repeated ↔ 2 ≤ m.names.count name) ∧
        (repeated.Pairwise fun x y => m.names.idxOf x < m.names.idxOf y) ∧
        problems m = (repeated.map fun name => .duplicate name (m.names.count name)) ++
          m.uniques.flatMap (faults m.uniques)) ∧
      (problems m = [] ↔ (m.assets.map Asset.field).Nodup ∧
        ∀ a ∈ m.assets, a.field ∉ keywords ∧ a.name ∉ reserved) ∧
      ∀ m' : Manifest, m'.names.Perm m.names → (problems m').length = (problems m).length := by
  refine ⟨⟨_, fun name => ?_, (pairwise_eraseDups m.names).filter _, problems_eq m⟩, problems_eq_nil_iff m,
    fun m' h => length_problems_perm h⟩
  rw [List.mem_filter, List.mem_eraseDups, decide_eq_true_eq]
  exact and_iff_right_of_imp fun h => List.count_pos_iff.1 (by omega)

/-- Three names with one field, a keyword, a name that is taken and one that is used twice; backwards and with
every asset a sound the problems are as many. -/
theorem problems_accounting_clashes :
    let m : Manifest := ⟨[⟨.texture, "Ab", "p"⟩, ⟨.sound, "If", "p"⟩, ⟨.texture, "Twice", "p"⟩,
      ⟨.sound, "AB", "p"⟩, ⟨.texture, "Just", "p"⟩, ⟨.texture, "Twice", "q"⟩, ⟨.sound, "ab", "p"⟩]⟩
    let m' : Manifest := ⟨m.assets.reverse.map fun a => ⟨.sound, a.name, a.path⟩⟩
    m'.names.Perm m.names ∧ (problems m').length = 5 ∧
      problems m = [.duplicate "Twice" 2, .keyword "If" "if", .collision "Ab" "AB" "ab", .reserved "Just",
        .collision "Ab" "ab" "ab"] := by
  intro m m'
  have hperm : m'.names.Perm m.names := List.reverse_perm m.names
  have hm : problems m = [.duplicate "Twice" 2, .keyword "If" "if", .collision "Ab" "AB" "ab", .reserved "Just",
      .collision "Ab" "ab" "ab"] := by
    decide +kernel
  refine ⟨hperm, ?_, hm⟩
  rw [(problems_accounting m).2.2 m' hperm, hm]
  rfl

end Naming

end TypedAssets
