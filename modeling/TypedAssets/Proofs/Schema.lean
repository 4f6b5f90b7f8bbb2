import TypedAssets.Proofs.Fields
import TypedAssets.Schema.Manifest

/-!
# Shapes of texts and documents

What it takes for a document to have no problems under a shape, constructor by constructor. A pattern does
not look at a line break at the end of a text (`accepts_iff`), so what it accepts is, apart from that, a
constructor name (`accepts_namePattern_iff`) or a plain path (`accepts_pathPattern_iff`).
-/

namespace TypedAssets.Schema

/-- A capital, then letters, digits and underscores, all of them ASCII. -/
def IsConstructorName (cs : List Char) : Prop :=
  ∃ c r, cs = c :: r ∧ c.isUpper ∧ ∀ d ∈ r, d.isAlphanum ∨ d = '_'

/-- A text of some length that starts with neither a slash nor a dot and holds no white space, no
double quote and no backslash. -/
def IsPlainPath (cs : List Char) : Prop :=
  cs ≠ [] ∧ cs.head? ≠ some '/' ∧ cs.head? ≠ some '.' ∧
    ∀ c ∈ cs, Text.isBlank c = false ∧ c ≠ '"' ∧ c ≠ '\\'

/-- Whether a line break is the last character. -/
def EndsInBreak (cs : List Char) : Prop := cs.getLast? = some '\n'

instance (cs : List Char) : Decidable (EndsInBreak cs) :=
  inferInstanceAs (Decidable (cs.getLast? = some '\n'))

theorem isNameChar_iff {c : Char} : isNameChar c = true ↔ c.isAlphanum ∨ c = '_' := by
  simp [isNameChar]

theorem isPathChar_iff {c : Char} :
    isPathChar c = true ↔ Text.isBlank c = false ∧ c ≠ '"' ∧ c ≠ '\\' := by
  simp [isPathChar, and_assoc]

theorem fits_namePattern_iff {cs : List Char} : namePattern.fits cs = true ↔ IsConstructorName cs := by
  cases cs with
  | nil => simp [Pattern.fits, IsConstructorName]
  | cons c r =>
    simp only [Pattern.fits, namePattern, Bool.and_eq_true, List.all_eq_true, isNameChar_iff]
    constructor
    · rintro ⟨hc, hr⟩
      exact ⟨c, r, rfl, hc, hr⟩
    · rintro ⟨c', r', h, hc, hr⟩
      obtain ⟨rfl, rfl⟩ := List.cons.inj h
      exact ⟨hc, hr⟩

theorem fits_pathPattern_iff {cs : List Char} : pathPattern.fits cs = true ↔ IsPlainPath cs := by
  cases cs with
  | nil => simp [Pattern.fits, IsPlainPath]
  | cons c r =>
    simp only [Pattern.fits, pathPattern, Bool.and_eq_true, List.all_eq_true, isPathChar_iff,
      bne_iff_ne, IsPlainPath, List.head?_cons, List.mem_cons, forall_eq_or_imp]
    constructor
    · rintro ⟨⟨⟨hc, hs⟩, hd⟩, hr⟩
      exact ⟨by simp, by simpa using hs, by simpa using hd, hc, hr⟩
    · rintro ⟨-, hs, hd, hc, hr⟩
      exact ⟨⟨⟨hc, by simpa using hs⟩, by simpa using hd⟩, hr⟩

theorem IsConstructorName.not_mem {cs : List Char} (h : IsConstructorName cs) {d : Char}
    (hd : isNameChar d = false) : d ∉ cs := by
  obtain ⟨c, r, rfl, hc, hr⟩ := h
  intro hmem
  have hchar : isNameChar d = true := by
    rcases List.mem_cons.1 hmem with rfl | hmem
    · refine isNameChar_iff.2 (.inl ?_)
      show (d.isUpper || d.isLower || d.isDigit) = true
      rw [hc]
      rfl
    · exact isNameChar_iff.2 (hr d hmem)
  rw [hd] at hchar
  cases hchar

/-- A shaped text, or one with a line break after it. -/
def UpToBreak (Shaped : List Char → Prop) (s : String) : Prop :=
  ∃ cs, Shaped cs ∧ (s.toList = cs ∨ s.toList = cs ++ ['\n'])

theorem accepts_iff (p : Pattern) (s : String) :
    p.accepts s = true ↔ UpToBreak (fun cs => p.fits cs = true) s := by
  rw [Pattern.accepts, Bool.or_eq_true, Pattern.dropFinalBreak]
  split
  · next h =>
    obtain ⟨t, ht⟩ := List.getLast?_eq_some_iff.1 h
    rw [ht, List.dropLast_concat]
    constructor
    · rintro (h | h)
      · exact ⟨_, h, .inl ht⟩
      · exact ⟨t, h, .inr ht⟩
    · rintro ⟨cs, hcs, h | h⟩
      · exact .inl (by rwa [← ht, h])
      · exact .inr (by rwa [List.append_cancel_right (ht.symm.trans h)])
  · next h =>
    rw [or_self]
    constructor
    · exact fun hs => ⟨_, hs, .inl rfl⟩
    · rintro ⟨cs, hcs, hs | hs⟩
      · rwa [hs]
      · exact absurd (by rw [hs, List.getLast?_concat]) h

section

variable {cs : List Char}

theorem dropFinalBreak_of_not (h : ¬ EndsInBreak cs) : Pattern.dropFinalBreak cs = cs := by
  unfold EndsInBreak at h
  rw [Pattern.dropFinalBreak, if_neg h]

theorem IsConstructorName.not_endsInBreak (h : IsConstructorName cs) : ¬ EndsInBreak cs := by
  obtain ⟨c, r, rfl, hc, hr⟩ := h
  intro hb
  have hmem : '\n' ∈ c :: r := List.mem_of_getLast? hb
  rcases List.mem_cons.1 hmem with rfl | hmem
  · exact absurd hc (by decide)
  · exact absurd (hr _ hmem) (by decide)

theorem IsPlainPath.not_endsInBreak (h : IsPlainPath cs) : ¬ EndsInBreak cs := by
  intro hb
  have hn : Text.isBlank '\n' = false := (h.2.2.2 _ (List.mem_of_getLast? hb)).1
  exact absurd hn (by decide)

/-- A shape that no text with a line break at its end has is accepted up to such a line break. -/
theorem accepts_iff_of_not_endsInBreak {p : Pattern} {Shaped : List Char → Prop}
    (hp : ∀ cs, p.fits cs = true ↔ Shaped cs) (hb : ∀ cs, Shaped cs → ¬ EndsInBreak cs) (s : String) :
    p.accepts s = true ↔ Shaped (Pattern.dropFinalBreak s.toList) := by
  rw [Pattern.accepts, Bool.or_eq_true, hp, hp]
  constructor
  · rintro (h | h)
    · rwa [dropFinalBreak_of_not (hb _ h)]
    · exact h
  · exact Or.inr

end

theorem accepts_namePattern_iff (s : String) :
    namePattern.accepts s = true ↔ IsConstructorName (Pattern.dropFinalBreak s.toList) :=
  accepts_iff_of_not_endsInBreak (fun _ => fits_namePattern_iff) (fun _ h => h.not_endsInBreak) s

theorem accepts_pathPattern_iff (s : String) :
    pathPattern.accepts s = true ↔ IsPlainPath (Pattern.dropFinalBreak s.toList) :=
  accepts_iff_of_not_endsInBreak (fun _ => fits_pathPattern_iff) (fun _ h => h.not_endsInBreak) s

theorem checkText_eq_nil_iff {nonempty : Bool} {p : Pattern} {s : String} :
    checkText nonempty p s = [] ↔ (nonempty = true → s ≠ "") ∧ p.accepts s = true := by
  rw [checkText, List.append_eq_nil_iff]
  cases nonempty <;> simp

theorem check_choice_eq_nil_iff {choices : List String} {v : Json} :
    (Shape.choice choices).check v = [] ↔ ∃ s ∈ choices, v = .string s := by
  cases v with
  | string s => simp [Shape.check]
  | _ => simp [Shape.check]

theorem check_text_eq_nil_iff {nonempty : Bool} {p : Pattern} {v : Json} :
    (Shape.text nonempty p).check v = [] ↔
      ∃ s, v = .string s ∧ (nonempty = true → s ≠ "") ∧ p.accepts s = true := by
  cases v with
  | string s => simp [Shape.check, checkText_eq_nil_iff]
  | _ => simp [Shape.check]

theorem check_array_eq_nil_iff {items : Shape} {v : Json} :
    (Shape.array items).check v = [] ↔ ∃ vs, v = .array vs ∧ ∀ w ∈ vs, items.check w = [] := by
  cases v with
  | array vs =>
    simp only [Shape.check, List.flatten_eq_nil_iff, List.mem_mapIdx, Json.array.injEq, exists_eq_left']
    constructor
    · intro h w hw
      obtain ⟨i, hi, rfl⟩ := List.getElem_of_mem hw
      simpa using h _ ⟨i, hi, rfl⟩
    · rintro h l ⟨i, hi, rfl⟩
      simp [h _ (List.getElem_mem hi)]
  | _ => simp [Shape.check]

section

variable {ms : Fields Json}

theorem checkRequired_eq_nil_iff {required : List String} :
    checkRequired required ms = [] ↔ ∀ x ∈ required, ∃ v, ms.get? x = some v := by
  rw [checkRequired, List.map_eq_nil_iff, List.filter_eq_nil_iff]
  refine forall₂_congr fun x _ => ?_
  rw [Fields.get?]
  cases ms.lookup x <;> simp

theorem checkNames_eq_nil_iff {known : List String} :
    checkNames known ms = [] ↔ ∀ x ∈ ms.names, x ∈ known := by
  have hfilter : (ms.names.filter fun name => !known.contains name) = [] ↔ ∀ x ∈ ms.names, x ∈ known := by
    simp [List.filter_eq_nil_iff]
  rw [← hfilter, checkNames, ← Fields.names]
  split
  · next h => exact iff_of_true rfl h
  · next h => exact iff_of_false (List.cons_ne_nil _ _) h

theorem checkProperties_eq_nil_iff {properties : List (String × Shape)} :
    Shape.checkProperties properties ms = [] ↔
      ∀ p ∈ properties, ∀ v, ms.get? p.1 = some v → p.2.check v = [] := by
  induction properties with
  | nil => simp [Shape.checkProperties]
  | cons p properties ih =>
    rw [Shape.checkProperties, List.append_eq_nil_iff, ih, List.forall_mem_cons, Fields.get?]
    refine and_congr_left fun _ => ?_
    cases ms.lookup p.1 <;> simp

end

theorem check_object_eq_nil_iff {required : List String} {properties : List (String × Shape)} {v : Json} :
    (Shape.object required properties).check v = [] ↔
      ∃ ms : Fields Json, v = .object ms ∧ (∀ x ∈ required, ∃ w, ms.get? x = some w) ∧
        (∀ x ∈ ms.names, x ∈ properties.map Prod.fst) ∧
          ∀ p ∈ properties, ∀ w, ms.get? p.1 = some w → p.2.check w = [] := by
  cases v with
  | object ms =>
    rw [Shape.check, List.append_eq_nil_iff, List.append_eq_nil_iff, checkRequired_eq_nil_iff,
      checkNames_eq_nil_iff, checkProperties_eq_nil_iff]
    simp [and_assoc]
  | _ => simp [Shape.check]

end TypedAssets.Schema
