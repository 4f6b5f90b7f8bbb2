import TypedAssets.Proofs.Boundaries

/-!
# Camel case of camel case

After its first word, camel case is a row of humps: runs of digits, and capitals with small letters behind
them. Cutting it into words again finds the humps that were put there (`isHump_scan_flatten_iff`), with two
differences. Runs of digits side by side become one, which is a hump as well. Two lone capitals side by side
become one word too, and camel case makes its second letter small. So `camelCase_camelCase_eq_iff`: camel case
leaves the camel case of a name as it is unless two words after the first are lone letters side by side.
-/

namespace TypedAssets.Words

variable {c d : Char} {r v w cs : List Char} {vs ws : List (List Char)}

/-- A run of digits or a run of letters. -/
def IsUniform (w : List Char) : Prop := w ≠ [] ∧ ((∀ d ∈ w, d.isDigit) ∨ ∀ d ∈ w, d.isAlpha)

theorem isUniform_take (hc : c.isAlphanum) (rest : List Char) : IsUniform (take c rest).1 := by
  refine ⟨take_fst_ne_nil c rest, ?_⟩
  unfold take
  split
  · next hd => exact .inl (List.forall_mem_cons.2 ⟨hd, fun e he => List.mem_takeWhile_imp he⟩)
  · next hd =>
    have halpha : c.isAlpha := by simpa [Char.isAlphanum, hd] using hc
    refine .inr ?_
    split
    · refine List.forall_mem_cons.2 ⟨halpha, fun e he => ?_⟩
      simp [isAlpha_eq, List.mem_takeWhile_imp he]
    · refine forall_mem_takeCapitals (P := (·.isAlpha)) halpha (fun e he => ?_) fun e he => ?_
      · simp [isAlpha_eq, List.mem_takeWhile_imp he]
      · simp [isAlpha_eq, he]

theorem isUniform_of_mem_scan (cs : List Char) : ∀ w ∈ scan cs, IsUniform w := by
  fun_induction scan cs with
  | case1 => simp
  | case2 c rest hc ih => exact List.forall_mem_cons.2 ⟨isUniform_take hc rest, ih⟩
  | case3 c rest _ ih => exact ih

/-- What camel case makes of a word after the first: digits, or a capital with small letters behind it. -/
inductive IsHump : List Char → Prop
  | digits {w : List Char} (hne : w ≠ []) (h : ∀ d ∈ w, d.isDigit) : IsHump w
  | letters {c : Char} {r : List Char} (hc : c.isUpper) (hr : ∀ d ∈ r, d.isLower) : IsHump (c :: r)

/-- A single letter. -/
def IsLone (w : List Char) : Prop := ∃ c, c.isAlpha ∧ w = [c]

theorem toUpper_of_isDigit (h : c.isDigit) : c.toUpper = c :=
  toUpper_of_not_isLower (not_isLetter_of_isDigit h).1

theorem map_toLower_of_forall (h : ∀ d ∈ w, ¬ d.isUpper) : w.map Char.toLower = w := by
  have hid : ∀ d ∈ w, d.toLower = d := fun d hd => toLower_of_not_isUpper (h d hd)
  rw [List.map_congr_left hid, List.map_id']

theorem capitalised_of_digits (h : ∀ d ∈ w, d.isDigit) : capitalised w = w := by
  cases w with
  | nil => rfl
  | cons c r =>
    obtain ⟨hc, hr⟩ := List.forall_mem_cons.1 h
    rw [capitalised, toUpper_of_isDigit hc, map_toLower_of_forall fun d hd => (not_isLetter_of_isDigit (hr d hd)).2]

theorem isHump_capitalised (h : IsUniform w) : IsHump (capitalised w) := by
  obtain ⟨hne, hd | ha⟩ := h
  · rw [capitalised_of_digits hd]
    exact .digits hne hd
  · cases w with
    | nil => exact absurd rfl hne
    | cons c r =>
      obtain ⟨hc, hr⟩ := List.forall_mem_cons.1 ha
      refine .letters (by simpa using hc) fun e he => ?_
      obtain ⟨d, hd, rfl⟩ := List.mem_map.1 he
      simpa using hr d hd

theorem isHump_of_mem_map_capitalised (h : ∀ w ∈ ws, IsUniform w) : ∀ v ∈ ws.map capitalised, IsHump v :=
  List.forall_mem_map.2 fun w hw => isHump_capitalised (h w hw)

theorem capitalised_eq_self_iff (h : IsUniform w) : capitalised w = w ↔ IsHump w := by
  constructor
  · intro he
    have := isHump_capitalised h
    rwa [he] at this
  · rintro (⟨-, hd⟩ | ⟨hc, hr⟩)
    · exact capitalised_of_digits hd
    · rw [capitalised, toUpper_of_not_isLower (not_isLower_of_isUpper hc),
        map_toLower_of_forall fun d hd => not_isUpper_of_isLower (hr d hd)]

theorem isLone_singleton (hc : c.isUpper) : IsLone [c] := ⟨c, by simp [isAlpha_eq, hc], rfl⟩

theorem not_isLone_of_digits (h : ∀ d ∈ w, d.isDigit) : ¬ IsLone w := by
  rintro ⟨c, hc, rfl⟩
  obtain ⟨hl, hu⟩ := not_isLetter_of_isDigit (h c List.mem_cons_self)
  simp [isAlpha_eq, hl, hu] at hc

theorem isLone_capitalised_iff (w : List Char) : IsLone (capitalised w) ↔ IsLone w := by
  cases w with
  | nil => rfl
  | cons c r => simp [IsLone, capitalised]

/-! ### Words in a row of humps -/

theorem scan_append (hw : w ≠ []) (halnum : ∀ d ∈ w, d.isAlphanum) (h : IsBlockBefore w cs) :
    scan (w ++ cs) = w :: scan cs := by
  rw [scan_eq_blocks, scan_eq_blocks, h.blocks_append hw, if_pos (List.all_eq_true.2 halnum)]

/-- Digits take the digits behind them into their word. -/
theorem scan_digits_append (hne : w ≠ []) (hw : ∀ d ∈ w, d.isDigit) (cs : List Char) :
    scan (w ++ cs) = (w ++ cs.takeWhile Char.isDigit) :: scan (cs.dropWhile Char.isDigit) := by
  obtain ⟨c, r, rfl⟩ := List.exists_cons_of_ne_nil hne
  obtain ⟨hc, hr⟩ := List.forall_mem_cons.1 hw
  have hblock := isBlockBefore_digits (r ++ cs) hc
  rw [List.takeWhile_append_of_pos hr, List.dropWhile_append_of_pos hr] at hblock
  rw [← List.cons_append] at hblock
  have hall : ∀ d ∈ c :: r ++ cs.takeWhile Char.isDigit, d.isAlphanum := by
    intro d hd
    have hdigit : d.isDigit := by
      rcases List.mem_append.1 hd with hd | hd
      · exact hw d hd
      · exact List.mem_takeWhile_imp hd
    simp [Char.isAlphanum, hdigit]
  rw [← scan_append (by simp) hall hblock, List.append_assoc, List.takeWhile_append_dropWhile]

/-- The digits at the head of a text are a hump, so leaving them away changes nothing. -/
theorem isHump_scan_dropWhile_iff (cs : List Char) :
    (∀ w ∈ scan (cs.dropWhile Char.isDigit), IsHump w) ↔ ∀ w ∈ scan cs, IsHump w := by
  cases cs with
  | nil => rfl
  | cons c r =>
    by_cases hc : c.isDigit
    · have hdigits : ∀ d ∈ [c] ++ r.takeWhile Char.isDigit, d.isDigit := by
        intro d hd
        rcases List.mem_append.1 hd with hd | hd
        · rwa [List.mem_singleton.1 hd]
        · exact List.mem_takeWhile_imp hd
      have hscan : scan (c :: r) = _ := scan_digits_append (List.cons_ne_nil c []) (by simpa using hc) r
      rw [hscan, List.forall_mem_cons, List.dropWhile_cons_of_pos hc]
      exact (and_iff_right (.digits (by simp) hdigits)).symm
    · rw [List.dropWhile_cons_of_neg hc]

theorem isBlockBefore_of_lowers (hne : w ≠ []) (hw : ∀ d ∈ w, d.isLower) (hcs : ∀ b ∈ cs.head?, ¬ b.isLower) :
    IsBlockBefore w cs := by
  obtain ⟨c, r, rfl⟩ := List.exists_cons_of_ne_nil hne
  obtain ⟨hc, hr⟩ := List.forall_mem_cons.1 hw
  have htake : cs.takeWhile Char.isLower = [] ∧ cs.dropWhile Char.isLower = cs := by
    cases cs with
    | nil => exact ⟨rfl, rfl⟩
    | cons b cs =>
      have hb := hcs b rfl
      exact ⟨List.takeWhile_cons_of_neg hb, List.dropWhile_cons_of_neg hb⟩
  have hblock := isBlockBefore_lowers (r ++ cs) hc
  rwa [List.takeWhile_append_of_pos hr, List.dropWhile_append_of_pos hr, htake.1, htake.2,
    List.append_nil] at hblock

theorem scan_lowers_append (hne : w ≠ []) (hw : ∀ d ∈ w, d.isLower) (hcs : ∀ b ∈ cs.head?, ¬ b.isLower) :
    scan (w ++ cs) = w :: scan cs := by
  refine scan_append hne (fun d hd => ?_) (isBlockBefore_of_lowers hne hw hcs)
  simp [Char.isAlphanum, isAlpha_eq, hw d hd]

theorem scan_letters_append (hc : c.isUpper) (hne : r ≠ []) (hr : ∀ d ∈ r, d.isLower)
    (hcs : ∀ b ∈ cs.head?, ¬ b.isLower) : scan (c :: r ++ cs) = (c :: r) :: scan cs := by
  have hblock := isBlockBefore_of_lowers hne hr hcs
  obtain ⟨d, r, rfl⟩ := List.exists_cons_of_ne_nil hne
  refine scan_append (List.cons_ne_nil _ _) (fun e he => ?_) (hblock.cons_isUpper hc (hr d List.mem_cons_self))
  rcases List.mem_cons.1 he with rfl | he
  · simp [Char.isAlphanum, isAlpha_eq, hc]
  · simp [Char.isAlphanum, isAlpha_eq, hr e he]

/-- A capital is a word of its own unless small letters follow or a capital that keeps no small letters. -/
theorem scan_lone (hc : c.isUpper)
    (hcs : ∀ b ∈ cs.head?, ¬ b.isLower ∧ (b.isUpper → cs.tail.head?.any Char.isLower)) :
    scan (c :: cs) = [c] :: scan cs := by
  have hupper : ∀ d ∈ [c], d.isUpper := by simpa using hc
  refine scan_append (List.cons_ne_nil c []) (fun d hd => ?_) (isBlockBefore_uppers hupper hcs)
  simp [Char.isAlphanum, isAlpha_eq, hupper d hd]

/-- Two capitals without small letters behind them are in one word. -/
theorem scan_fused (hc : c.isUpper) (hd : d.isUpper) (hcs : ∀ b ∈ cs.head?, ¬ b.isLower) :
    ∃ w us, scan (c :: d :: cs) = (c :: d :: w) :: us := by
  have halnum : c.isAlphanum := by simp [Char.isAlphanum, isAlpha_eq, hc]
  have hdigit : ¬ c.isDigit := fun h => (not_isLetter_of_isDigit h).2 hc
  have hword : ∃ w, (take c (d :: cs)).1 = c :: d :: w := by
    rw [take, if_neg hdigit, if_neg (not_isLower_of_isUpper hc), List.takeWhile_cons_of_pos hd,
      List.dropWhile_cons_of_pos hd, takeCapitals]
    split
    · next hl =>
      -- the small letters are behind a third capital, and it is the one they take
      have hmore : cs.takeWhile Char.isUpper ≠ [] := by
        intro hnil
        have hdrop : cs.dropWhile Char.isUpper = cs := by
          simpa [hnil] using List.takeWhile_append_dropWhile (p := Char.isUpper) (l := cs)
        rw [hdrop] at hl
        obtain ⟨b, hb, hlow⟩ := (Option.any_eq_true _ _).1 hl
        exact hcs b hb hlow
      split
      · next h => simp at h
      · exact ⟨_, by rw [List.dropLast_cons_of_ne_nil hmore]⟩
    · exact ⟨_, rfl⟩
  obtain ⟨w, hw⟩ := hword
  refine ⟨w, scan (take c (d :: cs)).2, ?_⟩
  rw [scan, if_pos halnum, hw]

theorem not_isLower_of_mem_head?_flatten (h : ∀ v ∈ vs, IsHump v) : ∀ b ∈ vs.flatten.head?, ¬ b.isLower := by
  cases vs with
  | nil => simp
  | cons v vs =>
    intro b hb
    cases h v List.mem_cons_self with
    | digits hne hd =>
      obtain ⟨e, r, rfl⟩ := List.exists_cons_of_ne_nil hne
      obtain rfl : e = b := by simpa using hb
      exact (not_isLetter_of_isDigit (hd e List.mem_cons_self)).1
    | @letters e r he hr =>
      obtain rfl : e = b := by simpa using hb
      exact not_isLower_of_isUpper he

/-- A capital at the head of the first hump has small letters behind it if it is not alone. -/
theorem any_isLower_of_not_isLone (h : ∀ v ∈ vs, IsHump v) (hlone : ∀ v ∈ vs.head?, ¬ IsLone v) :
    ∀ b ∈ vs.flatten.head?, b.isUpper → vs.flatten.tail.head?.any Char.isLower := by
  cases vs with
  | nil => simp
  | cons v vs =>
    intro b hb hu
    cases h v List.mem_cons_self with
    | digits hne hd =>
      obtain ⟨e, r, rfl⟩ := List.exists_cons_of_ne_nil hne
      obtain rfl : e = b := by simpa using hb
      exact absurd hu (not_isLetter_of_isDigit (hd e List.mem_cons_self)).2
    | @letters e r he hr =>
      cases r with
      | nil => exact absurd (isLone_singleton he) (hlone _ rfl)
      | cons d r => simpa using hr d List.mem_cons_self

theorem not_isHump_fused (hc : c.isUpper) (hd : d.isUpper) : ¬ IsHump (c :: d :: w) := by
  intro h
  cases h with
  | digits _ h => exact (not_isLetter_of_isDigit (h c List.mem_cons_self)).2 hc
  | letters _ h => exact not_isLower_of_isUpper hd (h d List.mem_cons_self)

/-- One hump more: a lone capital must not come before another one. -/
theorem isHump_scan_append_iff (hv : IsHump v) (h : ∀ w ∈ vs, IsHump w) :
    (∀ w ∈ scan (v ++ vs.flatten), IsHump w) ↔
      (∀ w ∈ vs.head?, ¬ (IsLone v ∧ IsLone w)) ∧ ∀ w ∈ scan vs.flatten, IsHump w := by
  have hhead := not_isLower_of_mem_head?_flatten h
  cases hv with
  | digits hne hd =>
    have hword : IsHump (v ++ vs.flatten.takeWhile Char.isDigit) := by
      refine .digits (by simp [hne]) fun e he => ?_
      rcases List.mem_append.1 he with he | he
      · exact hd e he
      · exact List.mem_takeWhile_imp he
    rw [scan_digits_append hne hd, List.forall_mem_cons, isHump_scan_dropWhile_iff]
    simp [hword, not_isLone_of_digits hd]
  | @letters c r hc hr =>
    by_cases hne : r = []
    · subst hne
      have hlone := isLone_singleton hc
      by_cases hnext : ∀ w ∈ vs.head?, ¬ IsLone w
      · have hcs : ∀ b ∈ vs.flatten.head?, ¬ b.isLower ∧ (b.isUpper → vs.flatten.tail.head?.any Char.isLower) :=
          fun b hb => ⟨hhead b hb, any_isLower_of_not_isLone h hnext b hb⟩
        rw [List.singleton_append, scan_lone hc hcs, List.forall_mem_cons]
        refine and_congr_left fun _ => iff_of_true (.letters hc hr) fun w hw hboth => ?_
        exact hnext w hw hboth.2
      · obtain ⟨w, hw, hlone'⟩ : ∃ w ∈ vs.head?, IsLone w := by simpa using hnext
        obtain ⟨us, rfl⟩ := List.head?_eq_some_iff.1 hw
        obtain ⟨d, hd, rfl⟩ : ∃ d, d.isUpper ∧ w = [d] := by
          obtain ⟨d, ha, rfl⟩ := hlone'
          cases h [d] List.mem_cons_self with
          | digits _ hd => exact absurd ⟨d, ha, rfl⟩ (not_isLone_of_digits hd)
          | letters hd _ => exact ⟨d, hd, rfl⟩
        have hus := not_isLower_of_mem_head?_flatten fun w hw => h w (List.mem_cons_of_mem _ hw)
        obtain ⟨u, ws, hscan⟩ := scan_fused hc hd hus
        refine iff_of_false (fun hall => ?_) fun hboth => hboth.1 [d] rfl ⟨hlone, hlone'⟩
        refine not_isHump_fused hc hd (hall (c :: d :: u) ?_)
        rw [List.flatten_cons, List.singleton_append, List.singleton_append, hscan]
        exact List.mem_cons_self
    · have hlone : ¬ IsLone (c :: r) := by
        rintro ⟨d, -, hd⟩
        simp [hne] at hd
      rw [scan_letters_append hc hne hr hhead, List.forall_mem_cons]
      simp [IsHump.letters hc hr, hlone]

/-- The words of a row of humps are humps exactly when no two lone capitals stand side by side. -/
theorem isHump_scan_flatten_iff (h : ∀ v ∈ vs, IsHump v) :
    (∀ w ∈ scan vs.flatten, IsHump w) ↔ vs.IsChain fun v w => ¬ (IsLone v ∧ IsLone w) := by
  induction vs with
  | nil => simp [scan]
  | cons v vs ih =>
    obtain ⟨hv, hvs⟩ := List.forall_mem_cons.1 h
    rw [List.flatten_cons, isHump_scan_append_iff hv hvs, ih hvs, List.isChain_cons]

theorem length_capitalised (w : List Char) : (capitalised w).length = w.length := by
  cases w <;> simp [capitalised]

theorem flatMap_capitalised_eq_flatten_iff :
    ws.flatMap capitalised = ws.flatten ↔ ∀ w ∈ ws, capitalised w = w := by
  induction ws with
  | nil => simp
  | cons w ws ih =>
    rw [List.flatMap_cons, List.flatten_cons, List.forall_mem_cons, ← ih]
    constructor
    · exact fun h => List.append_inj h (length_capitalised w)
    · rintro ⟨hw, hws⟩
      rw [hw, hws]

/-- Camel case cut into words again: the first one has no capitals, and the others are humps if the humps of the
camel case cut on their own are. -/
theorem scan_joinCamel_cons (hw : IsUniform w) (hws : ∀ v ∈ ws, IsUniform v) :
    ∃ u us, scan (joinCamel (w :: ws)) = u :: us ∧ u.map Char.toLower = u ∧
      ((∀ v ∈ us, IsHump v) ↔ ∀ v ∈ scan (ws.map capitalised).flatten, IsHump v) := by
  obtain ⟨hne, hdigits | hletters⟩ := hw
  · have hnot : ∀ d : Char, d.isDigit → ¬ d.isUpper := fun d hd => (not_isLetter_of_isDigit hd).2
    have hw : w.map Char.toLower = w := map_toLower_of_forall fun d hd => hnot d (hdigits d hd)
    rw [joinCamel, hw, List.flatMap_def]
    refine ⟨_, _, scan_digits_append hne hdigits _, map_toLower_of_forall fun d hd => ?_,
      isHump_scan_dropWhile_iff _⟩
    rcases List.mem_append.1 hd with hd | hd
    · exact hnot d (hdigits d hd)
    · exact hnot d (List.mem_takeWhile_imp hd)
  · have hlowers : ∀ d ∈ w.map Char.toLower, d.isLower := by
      intro d hd
      obtain ⟨e, he, rfl⟩ := List.mem_map.1 hd
      simpa using hletters e he
    have hhumps := isHump_of_mem_map_capitalised hws
    rw [joinCamel, List.flatMap_def]
    refine ⟨_, _, scan_lowers_append (by simpa using hne) hlowers (not_isLower_of_mem_head?_flatten hhumps), ?_,
      Iff.rfl⟩
    exact map_toLower_of_forall fun d hd => not_isUpper_of_isLower (hlowers d hd)

theorem joinCamel_eq_flatten_iff (hw : w.map Char.toLower = w) (hws : ∀ v ∈ ws, IsUniform v) :
    joinCamel (w :: ws) = (w :: ws).flatten ↔ ∀ v ∈ ws, IsHump v := by
  rw [joinCamel, hw, List.flatten_cons, List.append_right_inj, flatMap_capitalised_eq_flatten_iff]
  exact forall₂_congr fun v hv => capitalised_eq_self_iff (hws v hv)

/-- Camel case leaves the camel case of a name as it is exactly when no two words after the first, one right
behind the other, are single letters. -/
theorem camelCase_camelCase_eq_iff (name : String) :
    camelCase (camelCase name) = camelCase name ↔
      (split name).tail.IsChain fun v w => ¬ (IsLone v.toList ∧ IsLone w.toList) := by
  have huniform := isUniform_of_mem_scan name.toList
  have halnum := isAlphanum_of_mem_joinCamel (isAlphanum_of_mem_scan name.toList)
  rw [← String.toList_inj, toList_camelCase, toList_camelCase, split]
  cases hscan : scan name.toList with
  | nil => simp [joinCamel, scan]
  | cons w ws =>
    rw [hscan] at huniform halnum
    obtain ⟨hw, hws⟩ := List.forall_mem_cons.1 huniform
    have hhumps := isHump_of_mem_map_capitalised hws
    obtain ⟨u, us, hagain, hu, hus⟩ := scan_joinCamel_cons hw hws
    have hflat : (u :: us).flatten = joinCamel (w :: ws) := by
      rw [← hagain, flatten_scan, List.filter_eq_self.2 halnum]
    have huniform' : ∀ v ∈ us, IsUniform v := by
      have := isUniform_of_mem_scan (joinCamel (w :: ws))
      rw [hagain] at this
      exact fun v hv => this v (List.mem_cons_of_mem _ hv)
    rw [hagain, ← hflat, joinCamel_eq_flatten_iff hu huniform', hus, isHump_scan_flatten_iff hhumps,
      List.map_cons, List.tail_cons, List.isChain_map, List.isChain_map]
    simp only [isLone_capitalised_iff, String.toList_ofList]

end TypedAssets.Words
