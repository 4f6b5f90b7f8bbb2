import Mathlib.Data.List.Infix
import Mathlib.Data.List.TakeWhile
import TypedAssets.Words

/-!
# The camel case of a name

ASCII letters are two ranges of code points, and a change of case moves a letter from one to the other
(`toNat_toLower`, `toNat_toUpper`). So, whatever the name, its camel case holds ASCII letters and digits only
(`isAlphanum_of_mem_camelCase`). A name that starts with a capital has one that starts with the small letter
(`isFieldName_camelCase`), so it can be the name of a field.
-/

namespace TypedAssets.Words

section

variable {c : Char}

theorem isUpper_iff : c.isUpper ↔ 65 ≤ c.toNat ∧ c.toNat ≤ 90 := decide_eq_true_iff

theorem isLower_iff : c.isLower ↔ 97 ≤ c.toNat ∧ c.toNat ≤ 122 :=
  (Bool.and_eq_true_iff).trans (and_congr decide_eq_true_iff decide_eq_true_iff)

theorem isAlpha_eq (c : Char) : c.isAlpha = (c.isUpper || c.isLower) := rfl

theorem not_isLower_of_isUpper (h : c.isUpper) : ¬ c.isLower := by
  rw [isUpper_iff] at h
  rw [isLower_iff]
  omega

theorem not_isUpper_of_isLower (h : c.isLower) : ¬ c.isUpper := fun hu => not_isLower_of_isUpper hu h

theorem not_isLetter_of_isDigit (h : c.isDigit) : ¬ c.isLower ∧ ¬ c.isUpper := by
  have hc : 48 ≤ c.toNat ∧ c.toNat ≤ 57 := Char.isDigit_iff_toNat.1 h
  rw [isLower_iff, isUpper_iff]
  omega

theorem toLower_of_not_isUpper (h : ¬ c.isUpper) : c.toLower = c := dif_neg (mt isUpper_iff.2 h)

theorem toUpper_of_not_isLower (h : ¬ c.isLower) : c.toUpper = c := dif_neg (mt isLower_iff.2 h)

/-- A small letter stands 32 code points after its capital. -/
theorem toNat_toLower (h : c.isUpper) : c.toLower.toNat = c.toNat + 32 := by
  have hc := isUpper_iff.1 h
  obtain ⟨hvalid, hlower⟩ : ∃ hvalid, c.toLower = ⟨c.val + ('a'.val - 'A'.val), hvalid⟩ := ⟨_, dif_pos hc⟩
  have hshift : ('a'.val - 'A'.val).toNat = 32 := by decide
  rw [hlower, ← Char.toNat_val, UInt32.toNat_add, hshift, Char.toNat_val]
  omega

theorem toNat_toUpper (h : c.isLower) : c.toUpper.toNat + 32 = c.toNat := by
  have hc := isLower_iff.1 h
  obtain ⟨hvalid, hupper⟩ : ∃ hvalid, c.toUpper = ⟨c.val + ('A'.val - 'a'.val), hvalid⟩ := ⟨_, dif_pos hc⟩
  have hshift : ('A'.val - 'a'.val).toNat = 2 ^ 32 - 32 := by decide
  rw [hupper, ← Char.toNat_val, UInt32.toNat_add, hshift, Char.toNat_val]
  omega

@[simp] theorem isLower_toLower : c.toLower.isLower = c.isAlpha := by
  by_cases hu : c.isUpper
  · have hl : c.toLower.isLower := by
      have hc := isUpper_iff.1 hu
      have hshift := toNat_toLower hu
      rw [isLower_iff]
      omega
    simp [isAlpha_eq, hu, hl]
  · simp [isAlpha_eq, hu, toLower_of_not_isUpper hu]

@[simp] theorem isUpper_toUpper : c.toUpper.isUpper = c.isAlpha := by
  by_cases hl : c.isLower
  · have hu : c.toUpper.isUpper := by
      have hc := isLower_iff.1 hl
      have hshift := toNat_toUpper hl
      rw [isUpper_iff]
      omega
    simp [isAlpha_eq, hl, hu]
  · simp [isAlpha_eq, hl, toUpper_of_not_isLower hl]

@[simp] theorem isAlpha_toUpper : c.toUpper.isAlpha = c.isAlpha := by
  by_cases hl : c.isLower
  · simp [isAlpha_eq, hl]
  · rw [toUpper_of_not_isLower hl]

theorem isAlphanum_toLower (h : c.isAlphanum) : c.toLower.isAlphanum := by
  by_cases hu : c.isUpper
  · have hl : c.toLower.isLower := by simp [isAlpha_eq, hu]
    simp [Char.isAlphanum, isAlpha_eq, hl]
  · rwa [toLower_of_not_isUpper hu]

theorem isAlphanum_toUpper (h : c.isAlphanum) : c.toUpper.isAlphanum := by
  by_cases hl : c.isLower
  · simp [Char.isAlphanum, isAlpha_eq, hl]
  · rwa [toUpper_of_not_isLower hl]

end

theorem forall_mem_takeCapitals {P : Char → Prop} {c : Char} {capitals after : List Char} (hc : P c)
    (hcs : ∀ d ∈ capitals, P d) (hlower : ∀ d, d.isLower → P d) :
    ∀ d ∈ (takeCapitals c capitals after).1, P d := by
  intro d hd
  unfold takeCapitals at hd
  split at hd
  · split at hd
    · rcases List.mem_cons.1 hd with rfl | hd
      · exact hc
      · exact hlower d (List.mem_takeWhile_imp hd)
    · rcases List.mem_cons.1 hd with rfl | hd
      · exact hc
      · exact hcs d (List.mem_of_mem_dropLast hd)
  · rcases List.mem_cons.1 hd with rfl | hd
    · exact hc
    · exact hcs d hd

/-- A word holds letters and digits only. -/
theorem isAlphanum_of_mem_take {c : Char} {rest : List Char} (hc : c.isAlphanum) :
    ∀ d ∈ (take c rest).1, d.isAlphanum := by
  intro d hd
  unfold take at hd
  split at hd
  · rcases List.mem_cons.1 hd with rfl | hd
    · exact hc
    · simp [Char.isAlphanum, List.mem_takeWhile_imp hd]
  · split at hd
    · rcases List.mem_cons.1 hd with rfl | hd
      · exact hc
      · simp [Char.isAlphanum, isAlpha_eq, List.mem_takeWhile_imp hd]
    · refine forall_mem_takeCapitals (P := (·.isAlphanum)) hc (fun e he => ?_) (fun e he => ?_) d hd
      · simp [Char.isAlphanum, isAlpha_eq, List.mem_takeWhile_imp he]
      · simp [Char.isAlphanum, isAlpha_eq, he]

theorem head?_take (c : Char) (rest : List Char) : (take c rest).1.head? = some c := by
  unfold take takeCapitals
  repeat' split
  all_goals rfl

theorem isAlphanum_of_mem_scan (cs : List Char) : ∀ w ∈ scan cs, ∀ d ∈ w, d.isAlphanum := by
  fun_induction scan cs with
  | case1 => simp
  | case2 c rest hc ih =>
    intro w hw
    rcases List.mem_cons.1 hw with rfl | hw
    · exact isAlphanum_of_mem_take hc
    · exact ih w hw
  | case3 c rest _ ih => exact ih

theorem isAlphanum_of_mem_capitalised {w : List Char} (h : ∀ d ∈ w, d.isAlphanum) :
    ∀ d ∈ capitalised w, d.isAlphanum := by
  cases w with
  | nil => simp [capitalised]
  | cons c cs =>
    intro d hd
    rw [capitalised] at hd
    rcases List.mem_cons.1 hd with rfl | hd
    · exact isAlphanum_toUpper (h c List.mem_cons_self)
    · obtain ⟨e, he, rfl⟩ := List.mem_map.1 hd
      exact isAlphanum_toLower (h e (List.mem_cons_of_mem _ he))

theorem isAlphanum_of_mem_joinCamel {ws : List (List Char)} (h : ∀ w ∈ ws, ∀ d ∈ w, d.isAlphanum) :
    ∀ d ∈ joinCamel ws, d.isAlphanum := by
  cases ws with
  | nil => simp [joinCamel]
  | cons w ws =>
    intro d hd
    rw [joinCamel] at hd
    rcases List.mem_append.1 hd with hd | hd
    · obtain ⟨e, he, rfl⟩ := List.mem_map.1 hd
      exact isAlphanum_toLower (h w List.mem_cons_self e he)
    · obtain ⟨v, hv, hd⟩ := List.mem_flatMap.1 hd
      exact isAlphanum_of_mem_capitalised (h v (List.mem_cons_of_mem _ hv)) d hd

theorem toList_camelCase (name : String) : (camelCase name).toList = joinCamel (scan name.toList) := by
  rw [camelCase, String.toList_ofList]

theorem isAlphanum_of_mem_camelCase {name : String} {d : Char} (h : d ∈ (camelCase name).toList) :
    d.isAlphanum := by
  rw [toList_camelCase] at h
  exact isAlphanum_of_mem_joinCamel (isAlphanum_of_mem_scan _) d h

/-- A small letter, then letters and digits, all of them ASCII. -/
def IsFieldName (cs : List Char) : Prop :=
  ∃ c r, cs = c :: r ∧ c.isLower ∧ ∀ d ∈ r, d.isAlphanum

/-- The first word keeps its place, and with it the first letter of the name. -/
theorem isFieldName_camelCase {name : String} {c : Char} {r : List Char}
    (h : name.toList = c :: r) (hc : c.isUpper) : IsFieldName (camelCase name).toList := by
  have hal : c.isAlphanum := by simp [Char.isAlphanum, isAlpha_eq, hc]
  have hscan : scan name.toList = (take c r).1 :: scan (take c r).2 := by
    rw [h, scan, if_pos hal]
  obtain ⟨w, hw⟩ := List.head?_eq_some_iff.1 (head?_take c r)
  have hl : (camelCase name).toList =
      c.toLower :: (w.map Char.toLower ++ (scan (take c r).2).flatMap capitalised) := by
    rw [toList_camelCase, hscan, joinCamel, hw]
    rfl
  refine ⟨_, _, hl, by simp [isAlpha_eq, hc], fun d hd => ?_⟩
  exact isAlphanum_of_mem_camelCase (by rw [hl]; exact List.mem_cons_of_mem _ hd)

end TypedAssets.Words
