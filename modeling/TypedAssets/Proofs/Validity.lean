import TypedAssets.Proofs.Naming
import TypedAssets.Proofs.Documents
import TypedAssets.Proofs.Words
import TypedAssets.Text.Uppercase
import TypedAssets.Validation

/-!
# What a valid manifest promises

`valid_iff`: a manifest is valid exactly when the patterns accept its names and paths, its fields are
pairwise distinct and no keywords, and none of its names is taken.
-/

namespace TypedAssets

open Schema

namespace Manifest

theorem valid_iff (m : Manifest) :
    m.Valid ↔
      (∀ a ∈ m.assets, namePattern.accepts a.name = true ∧ pathPattern.accepts a.path = true) ∧
        (m.assets.map Asset.field).Nodup ∧
          ∀ a ∈ m.assets, a.field ∉ Naming.keywords ∧ a.name ∉ Naming.reserved := by
  rw [Valid, problems, problemsUnder, List.append_eq_nil_iff, List.map_eq_nil_iff,
    List.map_eq_nil_iff, check_document_eq_nil_iff, Naming.problems_eq_nil_iff]

namespace Valid
variable {m : Manifest} {a b : Asset}

theorem accepts_name (hm : m.Valid) (ha : a ∈ m.assets) : namePattern.accepts a.name = true :=
  ((m.valid_iff.1 hm).1 a ha).1

theorem accepts_path (hm : m.Valid) (ha : a ∈ m.assets) : pathPattern.accepts a.path = true :=
  ((m.valid_iff.1 hm).1 a ha).2

theorem fields_nodup (hm : m.Valid) : (m.assets.map Asset.field).Nodup :=
  (m.valid_iff.1 hm).2.1

theorem field_not_mem_keywords (hm : m.Valid) (ha : a ∈ m.assets) : a.field ∉ Naming.keywords :=
  ((m.valid_iff.1 hm).2.2 a ha).1

theorem name_not_mem_reserved (hm : m.Valid) (ha : a ∈ m.assets) : a.name ∉ Naming.reserved :=
  ((m.valid_iff.1 hm).2.2 a ha).2

/-- Assets with different names have different fields, so the names are distinct as well. -/
theorem names_nodup (hm : m.Valid) : (m.assets.map Asset.name).Nodup := by
  have h := hm.fields_nodup
  have hf : m.assets.map Asset.field = (m.assets.map Asset.name).map Words.camelCase := by
    rw [List.map_map]
    rfl
  rw [hf] at h
  exact List.Nodup.of_map _ h

/-- The first character of a name is a capital; what may follow a line break at the end does not
reach it. -/
theorem name_head (hm : m.Valid) (ha : a ∈ m.assets) : ∃ c r, a.name.toList = c :: r ∧ c.isUpper := by
  obtain ⟨c, r, h, hc, -⟩ := (accepts_namePattern_iff _).1 (hm.accepts_name ha)
  rw [Pattern.dropFinalBreak] at h
  split at h
  · next hb =>
    obtain ⟨t, ht⟩ := List.getLast?_eq_some_iff.1 hb
    rw [ht, List.dropLast_concat] at h
    exact ⟨c, r ++ ['\n'], by rw [ht, h, List.cons_append], hc⟩
  · exact ⟨c, r, h, hc⟩

/-- A name is read as a constructor. -/
theorem startsUppercase_name (hm : m.Valid) (ha : a ∈ m.assets) :
    Text.startsUppercase a.name = true := by
  obtain ⟨c, r, h, hc⟩ := hm.name_head ha
  rw [Text.startsUppercase, h]
  exact Text.isUppercase_of_isUpper hc

theorem isFieldName_field (hm : m.Valid) (ha : a ∈ m.assets) : Words.IsFieldName a.field.toList := by
  obtain ⟨c, r, h, hc⟩ := hm.name_head ha
  exact Words.isFieldName_camelCase h hc

theorem eq_of_name_eq (hm : m.Valid) (ha : a ∈ m.assets) (hb : b ∈ m.assets)
    (h : a.name = b.name) : a = b :=
  List.inj_on_of_nodup_map hm.names_nodup ha hb h

end Valid

theorem of_dropFinalBreak {Shaped : List Char → Prop} {cs : List Char}
    (hb : ∀ cs, Shaped cs → ¬ EndsInBreak cs) (h : Shaped (Pattern.dropFinalBreak cs)) :
    Shaped cs ↔ ¬ EndsInBreak cs :=
  ⟨hb cs, fun hn => by rwa [dropFinalBreak_of_not hn] at h⟩

/-- Validation lets a name or a path end in a line break and is strict about all else: apart from
that line break every name is a constructor name and every path is plain, so a name or a path falls
short of that exactly when the line break is there. -/
theorem name_path_lexical {m : Manifest} (hm : m.Valid) {a : Asset} (ha : a ∈ m.assets) :
    (IsConstructorName a.name.toList ↔ ¬ EndsInBreak a.name.toList) ∧
      (IsPlainPath a.path.toList ↔ ¬ EndsInBreak a.path.toList) ∧
        IsConstructorName (Pattern.dropFinalBreak a.name.toList) ∧
          IsPlainPath (Pattern.dropFinalBreak a.path.toList) := by
  have hn := (accepts_namePattern_iff _).1 (hm.accepts_name ha)
  have hp := (accepts_pathPattern_iff _).1 (hm.accepts_path ha)
  exact ⟨of_dropFinalBreak (fun _ h => h.not_endsInBreak) hn,
    of_dropFinalBreak (fun _ h => h.not_endsInBreak) hp, hn, hp⟩

/-- A line break at the end of a name and of a path passes, and neither is what it should be. -/
theorem name_path_lexical_final_break :
    let m : Manifest := ⟨[⟨.texture, "A\n", "p\n"⟩]⟩
    m.Valid ∧ ¬ IsConstructorName "A\n".toList ∧ ¬ IsPlainPath "p\n".toList := by
  intro m
  have hm : m.Valid := by decide +kernel
  obtain ⟨hn, hp, -⟩ := name_path_lexical hm List.mem_cons_self
  exact ⟨hm, fun h => hn.1 h (by decide), fun h => hp.1 h (by decide)⟩

end Manifest

end TypedAssets
