import Mathlib.Data.List.SplitBy
import Mathlib.Data.String.Basic
import TypedAssets.Proofs.Words

/-!
# Where words end

Whether two neighbouring characters belong to one word can be told from the two of them and the character
right after them: that is `Joined`. `split_eq_blocks`: the words of a name are its blocks of letters and
digits under this rule, and nothing but the separators is lost.

Words are taken from the left, so the proof looks at one word and what follows it: `IsBlockBefore` says that
the word holds together and that the next character does not belong to it. Only a run of capitals needs the
character after that, since small letters behind the run take its last capital away.
-/

namespace TypedAssets.Words

/-- Two neighbouring characters belong to one word; `next` is the character right after them. -/
def Joined (a b : Char) (next : Option Char) : Prop :=
  (a.isDigit ∧ b.isDigit) ∨ (a.isLower ∧ b.isLower) ∨ (a.isUpper ∧ b.isLower) ∨
    (a.isUpper ∧ b.isUpper ∧ ¬ next.any Char.isLower)

instance (a b : Char) (next : Option Char) : Decidable (Joined a b next) :=
  inferInstanceAs (Decidable (_ ∨ _ ∨ _ ∨ _))

section

variable {a b c : Char} {next : Option Char}

theorem joined_of_isDigit (ha : a.isDigit) : Joined a b next ↔ b.isDigit := by
  obtain ⟨hl, hu⟩ := not_isLetter_of_isDigit ha
  simp [Joined, ha, hl, hu]

theorem joined_of_isLower (ha : a.isLower) : Joined a b next ↔ b.isLower := by
  have hd : ¬ a.isDigit := fun h => (not_isLetter_of_isDigit h).1 ha
  simp [Joined, ha, hd, not_isUpper_of_isLower ha]

theorem joined_of_isUpper (ha : a.isUpper) :
    Joined a b next ↔ b.isLower ∨ b.isUpper ∧ ¬ next.any Char.isLower := by
  have hd : ¬ a.isDigit := fun h => (not_isLetter_of_isDigit h).2 ha
  simp [Joined, ha, hd, not_isLower_of_isUpper ha]

theorem Joined.isAlphanum (h : Joined a b next) : a.isAlphanum := by
  rcases h with ⟨h, -⟩ | ⟨h, -⟩ | ⟨h, -⟩ | ⟨h, -⟩ <;> simp [Char.isAlphanum, isAlpha_eq, h]

end

/-- The characters of a text, each with the one right after it, where `after` comes after the text. -/
def withNext (after : Option Char) : List Char → List (Char × Option Char)
  | [] => []
  | c :: cs => (c, cs.head?.or after) :: withNext after cs

/-- A text cut wherever two neighbouring characters do not belong to one word. -/
def runs (cs : List Char) : List (List (Char × Option Char)) :=
  (withNext none cs).splitBy fun x y => Joined x.1 y.1 y.2

/-- The maximal blocks of letters and digits that belong to one word. -/
def blocks (cs : List Char) : List (List Char) :=
  ((runs cs).map (·.map Prod.fst)).filter (·.all Char.isAlphanum)

section

variable {after : Option Char} {cs : List Char}

theorem withNext_append (after : Option Char) (cs ds : List Char) :
    withNext after (cs ++ ds) = withNext (ds.head?.or after) cs ++ withNext after ds := by
  induction cs with
  | nil => rfl
  | cons c cs ih => simp [withNext, ih, Option.or_assoc]

@[simp] theorem map_fst_withNext (after : Option Char) (cs : List Char) :
    (withNext after cs).map Prod.fst = cs := by
  induction cs with
  | nil => rfl
  | cons c cs ih => rw [withNext, List.map_cons, ih]

theorem fst_mem_of_mem_withNext {x : Char × Option Char} (hx : x ∈ withNext after cs) : x.1 ∈ cs := by
  simpa using List.mem_map_of_mem (f := Prod.fst) hx

theorem snd_of_mem_withNext {x : Char × Option Char} (hx : x ∈ withNext after cs) :
    x.2 = after ∨ ∃ d ∈ cs, x.2 = some d := by
  induction cs with
  | nil => cases hx
  | cons c cs ih =>
    rcases List.mem_cons.1 hx with rfl | hx
    · cases cs with
      | nil => exact .inl rfl
      | cons d cs => exact .inr ⟨d, by simp, rfl⟩
    · exact (ih hx).imp_right fun ⟨d, hd, h⟩ => ⟨d, List.mem_cons_of_mem _ hd, h⟩

theorem isChain_withNext (h : ∀ a ∈ cs, ∀ x ∈ withNext after cs, Joined a x.1 x.2) :
    (withNext after cs).IsChain fun x y => Joined x.1 y.1 y.2 :=
  (List.pairwise_of_forall_mem_list fun x hx y hy => h x.1 (fst_mem_of_mem_withNext hx) y hy).isChain

end

/-- `w` belongs together where `r` follows it, and the first character of `r` does not belong to it. -/
structure IsBlockBefore (w r : List Char) : Prop where
  joined : (withNext r.head? w).IsChain fun x y => Joined x.1 y.1 y.2
  ends : ∀ a ∈ w.getLast?, ∀ b ∈ r.head?, ¬ Joined a b r.tail.head?

namespace IsBlockBefore

variable {w r : List Char}

theorem runs_append (hw : w ≠ []) (h : IsBlockBefore w r) :
    runs (w ++ r) = withNext r.head? w :: runs r := by
  have hne : withNext r.head? w ≠ [] := fun hnil =>
    hw (by simpa [hnil] using (map_fst_withNext r.head? w).symm)
  rw [runs, withNext_append, Option.or_none, List.splitBy_append, List.splitBy_of_isChain hne]
  · rfl
  · simpa using h.joined
  · intro x hx y hy
    have hlast : x.1 ∈ w.getLast? := by
      rw [← map_fst_withNext r.head? w, List.getLast?_map]
      exact Option.mem_map_of_mem _ hx
    cases r with
    | nil => cases hy
    | cons b r =>
      obtain rfl : (b, r.head?.or none) = y := by simpa [withNext] using hy
      simpa using h.ends _ hlast b rfl

theorem blocks_append (hw : w ≠ []) (h : IsBlockBefore w r) :
    blocks (w ++ r) = if w.all Char.isAlphanum then w :: blocks r else blocks r := by
  rw [blocks, h.runs_append hw, List.map_cons, map_fst_withNext, List.filter_cons]
  rfl

/-- A capital before small letters belongs to them. -/
theorem cons_isUpper {c d : Char} (hc : c.isUpper) (hd : d.isLower) (h : IsBlockBefore (d :: w) r) :
    IsBlockBefore (c :: d :: w) r := by
  refine ⟨List.isChain_cons_cons.2 ⟨(joined_of_isUpper hc).2 (.inl hd), h.joined⟩, ?_⟩
  rw [List.getLast?_cons_cons]
  exact h.ends

end IsBlockBefore

section

variable {c : Char} {cs r : List Char}

theorem not_of_mem_head?_dropWhile {p : Char → Bool} {b : Char} (hb : b ∈ (cs.dropWhile p).head?) :
    ¬ p b := by
  have h := List.head?_dropWhile_not p cs
  rw [Option.mem_def.1 hb] at h
  simpa using h

theorem isBlockBefore_digits (rest : List Char) (hc : c.isDigit) :
    IsBlockBefore (c :: rest.takeWhile Char.isDigit) (rest.dropWhile Char.isDigit) := by
  have hdigits : ∀ d ∈ c :: rest.takeWhile Char.isDigit, d.isDigit :=
    List.forall_mem_cons.2 ⟨hc, fun d hd => List.mem_takeWhile_imp hd⟩
  refine ⟨isChain_withNext fun a ha x hx => ?_, fun a ha b hb => ?_⟩
  · exact (joined_of_isDigit (hdigits a ha)).2 (hdigits _ (fst_mem_of_mem_withNext hx))
  · rw [joined_of_isDigit (hdigits a (List.mem_of_mem_getLast? ha))]
    exact not_of_mem_head?_dropWhile hb

theorem isBlockBefore_lowers (rest : List Char) (hc : c.isLower) :
    IsBlockBefore (c :: rest.takeWhile Char.isLower) (rest.dropWhile Char.isLower) := by
  have hlowers : ∀ d ∈ c :: rest.takeWhile Char.isLower, d.isLower :=
    List.forall_mem_cons.2 ⟨hc, fun d hd => List.mem_takeWhile_imp hd⟩
  refine ⟨isChain_withNext fun a ha x hx => ?_, fun a ha b hb => ?_⟩
  · exact (joined_of_isLower (hlowers a ha)).2 (hlowers _ (fst_mem_of_mem_withNext hx))
  · rw [joined_of_isLower (hlowers a (List.mem_of_mem_getLast? ha))]
    exact not_of_mem_head?_dropWhile hb

/-- Capitals are a block unless small letters follow; a capital that follows must have some behind it. -/
theorem isBlockBefore_uppers (hcs : ∀ d ∈ cs, d.isUpper)
    (hr : ∀ b ∈ r.head?, ¬ b.isLower ∧ (b.isUpper → r.tail.head?.any Char.isLower)) :
    IsBlockBefore cs r := by
  refine ⟨isChain_withNext fun a ha x hx => ?_, fun a ha b hb => ?_⟩
  · refine (joined_of_isUpper (hcs a ha)).2 (.inr ⟨hcs _ (fst_mem_of_mem_withNext hx), ?_⟩)
    rcases snd_of_mem_withNext hx with h | ⟨d, hd, h⟩
    · rw [h]
      cases hb : r.head? with
      | none => simp
      | some b => simpa using (hr b hb).1
    · rw [h]
      simpa using not_isLower_of_isUpper (hcs d hd)
  · rw [joined_of_isUpper (hcs a (List.mem_of_mem_getLast? ha))]
    obtain ⟨hl, hu⟩ := hr b hb
    rintro (h | ⟨h, hn⟩)
    · exact hl h
    · exact hn (hu h)

theorem isBlockBefore_takeCapitals {capitals after : List Char} (hc : c.isUpper)
    (hcs : ∀ d ∈ capitals, d.isUpper) (hafter : ∀ b ∈ after.head?, ¬ b.isUpper) :
    IsBlockBefore (takeCapitals c capitals after).1 (takeCapitals c capitals after).2 := by
  unfold takeCapitals
  split
  · next hl =>
    obtain ⟨d, ds, rfl, hd⟩ : ∃ d ds, after = d :: ds ∧ d.isLower := by
      cases after with
      | nil => cases hl
      | cons d ds => exact ⟨d, ds, rfl, by simpa using hl⟩
    split
    · simp only [List.takeWhile_cons, List.dropWhile_cons, hd, if_true]
      exact (isBlockBefore_lowers ds hd).cons_isUpper hc hd
    · next initial h =>
      -- the run ends before its last capital, which the small letters take
      obtain ⟨initials, rfl⟩ := List.getLast?_eq_some_iff.1 h
      have hinitial : initial.isUpper := hcs initial (by simp)
      rw [List.dropLast_concat]
      refine isBlockBefore_uppers (List.forall_mem_cons.2 ⟨hc, fun e he => hcs e (by simp [he])⟩) ?_
      rintro b ⟨⟩
      exact ⟨not_isLower_of_isUpper hinitial, fun _ => by simpa using hd⟩
  · next hl =>
    refine isBlockBefore_uppers (List.forall_mem_cons.2 ⟨hc, hcs⟩) fun b hb => ?_
    refine ⟨fun h => hl ?_, fun h => absurd h (hafter b hb)⟩
    rw [Option.mem_def.1 hb]
    exact h

theorem isBlockBefore_take (rest : List Char) (hc : c.isAlphanum) :
    IsBlockBefore (take c rest).1 (take c rest).2 := by
  unfold take
  split
  · next hd => exact isBlockBefore_digits rest hd
  · next hd =>
    split
    · next hl => exact isBlockBefore_lowers rest hl
    · next hl =>
      have hu : c.isUpper := by simpa [Char.isAlphanum, isAlpha_eq, hd, hl] using hc
      exact isBlockBefore_takeCapitals hu (fun d hd => List.mem_takeWhile_imp hd)
        fun b hb => not_of_mem_head?_dropWhile hb

theorem isBlockBefore_separator (rest : List Char) (hc : ¬ c.isAlphanum) : IsBlockBefore [c] rest := by
  refine ⟨.singleton _, ?_⟩
  rintro a ⟨⟩ b _ h
  exact hc h.isAlphanum

end

theorem scan_eq_blocks (cs : List Char) : scan cs = blocks cs := by
  fun_induction scan cs with
  | case1 => rfl
  | case2 c rest hc ih =>
    have hall : (take c rest).1.all Char.isAlphanum :=
      List.all_eq_true.2 fun d hd => isAlphanum_of_mem_take hc d hd
    rw [ih, ← take_append c rest, (isBlockBefore_take rest hc).blocks_append (take_fst_ne_nil c rest),
      if_pos hall]
  | case3 c rest hc ih =>
    have hblock := (isBlockBefore_separator rest hc).blocks_append (List.cons_ne_nil c [])
    simpa [hc, ih] using hblock.symm

theorem ne_nil_of_mem_blocks {w cs : List Char} (hw : w ∈ blocks cs) : w ≠ [] := by
  obtain ⟨run, hrun, rfl⟩ := List.mem_map.1 (List.mem_of_mem_filter hw)
  simpa using List.ne_nil_of_mem_splitBy hrun

theorem flatten_scan (cs : List Char) : (scan cs).flatten = cs.filter Char.isAlphanum := by
  fun_induction scan cs with
  | case1 => rfl
  | case2 c rest hc ih =>
    have hall : (take c rest).1.filter Char.isAlphanum = (take c rest).1 :=
      List.filter_eq_self.2 fun d hd => isAlphanum_of_mem_take hc d hd
    rw [List.flatten_cons, ih, ← take_append c rest, List.filter_append, hall]
  | case3 c rest hc ih => rw [ih, List.filter_cons_of_neg hc]

/-- The words of a name are its blocks of letters and digits, none of them empty, and run together they are
the name without its separators. -/
theorem split_eq_blocks (name : String) :
    split name = (blocks name.toList).map String.ofList ∧ (∀ word ∈ split name, word ≠ "") ∧
      String.join (split name) = String.ofList (name.toList.filter Char.isAlphanum) := by
  refine ⟨by rw [split, scan_eq_blocks], fun word hword => ?_, ?_⟩
  · rw [split, scan_eq_blocks] at hword
    obtain ⟨w, hw, rfl⟩ := List.mem_map.1 hword
    rw [Ne, ← String.toList_eq_nil_iff, String.toList_ofList]
    exact ne_nil_of_mem_blocks hw
  · have hid : ∀ w ∈ scan name.toList, (String.toList ∘ String.ofList) w = w := fun w _ =>
      String.toList_ofList
    rw [String.join_eq, split, List.map_map, List.map_congr_left hid, List.map_id', flatten_scan]

example : (blocks "HTMLParser2_ABc".toList).map String.ofList = ["HTML", "Parser", "2", "A", "Bc"] := by
  decide

end TypedAssets.Words
