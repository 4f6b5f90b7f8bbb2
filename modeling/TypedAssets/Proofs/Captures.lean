import TypedAssets.Pack.Module
import TypedAssets.Proofs.Fields
import TypedAssets.Text.Uppercase

/-!
# The captures of the completion check

The completion check reads the slots in the order of `slotOrder` and numbers a variable for each. With
distinct fields every slot gets a variable of its own (`slotVars_nodup`), the variables of a kind stand
in the order of its slots (`captures_fst`, `captures_snd_fst`), and the completed pack finds them again
by their fields.
-/

namespace TypedAssets.Pack

/-- The assets in the order in which the completion check reads their slots. -/
def slotOrder (m : Manifest) : List Asset := m.ofKind .texture ++ m.ofKind .sound

/-- The variable that the completion check captures the value of an asset's slot in. -/
def slotVar (m : Manifest) (a : Asset) : String := ((captures m).2.2.get? a.field).getD ""

theorem mem_slotOrder {m : Manifest} {a : Asset} : a ∈ slotOrder m ↔ a ∈ m.assets := by
  rw [slotOrder, List.mem_append, Manifest.mem_ofKind, Manifest.mem_ofKind, ← and_or_left]
  refine and_iff_left_of_imp fun _ => ?_
  cases a.kind
  · exact .inl rfl
  · exact .inr rfl

theorem slotOrder_perm (m : Manifest) : (slotOrder m).Perm m.assets := by
  have h := List.filter_append_perm (fun a : Asset => decide (a.kind = .texture)) m.assets
  have hs : m.ofKind .sound = m.assets.filter fun a => !decide (a.kind = .texture) := by
    rw [Manifest.ofKind]
    refine List.filter_congr fun a _ => ?_
    cases a.kind <;> rfl
  rw [slotOrder, hs]
  exact h

/-- The variable of a number. -/
def captureName (i : Nat) : String := "t" ++ toString i

theorem captureName_injective {i j : Nat} (h : captureName i = captureName j) : i = j := by
  have hd : Nat.toDigits 10 i = Nat.toDigits 10 j := by
    simpa [captureName, ← String.toList_inj] using h
  rw [← Nat.ofDigitChars_ten_toDigits (n := i), hd, Nat.ofDigitChars_ten_toDigits]

theorem toList_captureName (i : Nat) : (captureName i).toList = 't' :: Nat.toDigits 10 i := by
  simp [captureName]

theorem numberSlots_append (vars : Fields String) (as bs : List Asset) :
    numberSlots vars (as ++ bs) =
      ((numberSlots vars as).1 ++ (numberSlots (numberSlots vars as).2 bs).1,
        (numberSlots (numberSlots vars as).2 bs).2) := by
  induction as generalizing vars with
  | nil => rfl
  | cons a as ih => simp only [List.cons_append, numberSlots, ih]

/-- What holds of every numbered variable holds of all that slots get, distinct or not. -/
theorem forall_numberSlots {P : String → Prop} (hP : ∀ i, P (captureName i)) {vars : Fields String}
    (hvars : ∀ f ∈ vars, P f.2) (as : List Asset) :
    (∀ x ∈ (numberSlots vars as).1, P x) ∧ ∀ f ∈ (numberSlots vars as).2, P f.2 := by
  induction as generalizing vars with
  | nil => exact ⟨fun x hx => absurd hx List.not_mem_nil, hvars⟩
  | cons a as ih =>
    have hset : ∀ f ∈ vars.set a.field (captureName vars.length), P f.2 := by
      intro f hf
      rcases Fields.mem_set hf with hf | rfl
      · exact hvars f hf
      · exact hP _
    obtain ⟨hxs, hfs⟩ := ih hset
    refine ⟨fun x hx => ?_, hfs⟩
    rcases List.mem_cons.1 hx with rfl | hx
    · exact hP _
    · exact hxs x hx

theorem forall_captures {P : String → Prop} (hP : ∀ i, P (captureName i)) (m : Manifest) :
    (∀ x ∈ (captures m).1, P x) ∧ (∀ x ∈ (captures m).2.1, P x) ∧ ∀ f ∈ (captures m).2.2, P f.2 := by
  have hnone : ∀ f ∈ ([] : Fields String), P f.2 := fun f hf => absurd hf List.not_mem_nil
  obtain ⟨ht, hvars⟩ := forall_numberSlots hP hnone (m.ofKind .texture)
  exact ⟨ht, forall_numberSlots hP hvars (m.ofKind .sound)⟩

theorem length_numberSlots (vars : Fields String) (as : List Asset) :
    (numberSlots vars as).1.length = as.length := by
  induction as generalizing vars with
  | nil => rfl
  | cons a as ih => simp [numberSlots, ih]

/-- Slots with fresh fields get consecutive numbers, and every field gets the variable of its slot. -/
theorem numberSlots_of_nodup {vars : Fields String} {as : List Asset}
    (hnd : (vars.names ++ as.map Asset.field).Nodup) :
    numberSlots vars as =
      ((List.range' vars.length as.length).map captureName,
        vars ++ (as.map Asset.field).zip ((List.range' vars.length as.length).map captureName)) := by
  -- a fresh field is bound last, so the number of bound fields is the next number
  induction as generalizing vars with
  | nil => simp [numberSlots]
  | cons a as ih =>
    have hfresh : a.field ∉ vars.names := by
      intro h
      have := (List.nodup_append.1 hnd).2.2 _ h a.field (by simp)
      exact this rfl
    have hset : vars.set a.field (captureName vars.length) = vars ++ [(a.field, captureName vars.length)] :=
      Fields.set_of_not_mem hfresh
    have hnd' : ((vars ++ [(a.field, captureName vars.length)]).names ++ as.map Asset.field).Nodup := by
      simpa [Fields.names] using hnd
    show (_ :: (numberSlots (vars.set a.field (captureName vars.length)) as).1,
      (numberSlots (vars.set a.field (captureName vars.length)) as).2) = _
    rw [hset, ih hnd']
    simp [List.range'_succ, captureName]

section

variable {m : Manifest} (hnd : (m.assets.map Asset.field).Nodup)

theorem captures_eq (m : Manifest) :
    (captures m).1 ++ (captures m).2.1 = (numberSlots [] (slotOrder m)).1 ∧
      (captures m).2.2 = (numberSlots [] (slotOrder m)).2 := by
  rw [slotOrder, numberSlots_append]
  exact ⟨rfl, rfl⟩

include hnd

theorem slotOrder_fields_nodup : ((slotOrder m).map Asset.field).Nodup :=
  ((slotOrder_perm m).map Asset.field).nodup_iff.2 hnd

theorem numberSlots_slotOrder :
    numberSlots [] (slotOrder m) =
      ((List.range (slotOrder m).length).map captureName,
        ((slotOrder m).map Asset.field).zip ((List.range (slotOrder m).length).map captureName)) := by
  rw [numberSlots_of_nodup (by simpa [Fields.names] using slotOrder_fields_nodup hnd)]
  simp [List.range_eq_range']

theorem slotVar_getElem {i : Nat} (hi : i < (slotOrder m).length) :
    slotVar m (slotOrder m)[i] = captureName i := by
  have hfs := numberSlots_slotOrder hnd
  have hget : (captures m).2.2.get? (slotOrder m)[i].field = some (captureName i) := by
    rw [(captures_eq m).2, hfs]
    refine Fields.get?_eq_some_of_mem ?_ ?_
    · rw [Fields.names, List.map_fst_zip (by simp)]
      exact slotOrder_fields_nodup hnd
    · refine List.mem_iff_getElem.2 ⟨i, by simpa using hi, ?_⟩
      simp
  rw [slotVar, hget]
  rfl

/-- The variables of all slots, in order. -/
theorem slotVars_eq : (slotOrder m).map (slotVar m) = (captures m).1 ++ (captures m).2.1 := by
  rw [(captures_eq m).1, numberSlots_slotOrder hnd]
  refine List.ext_getElem (by simp) fun i hi _ => ?_
  simp [slotVar_getElem hnd (by simpa using hi)]

theorem captures_fst : (captures m).1 = (m.ofKind .texture).map (slotVar m) := by
  have h := slotVars_eq hnd
  rw [slotOrder, List.map_append] at h
  refine (List.append_inj h ?_).1.symm
  rw [List.length_map]
  exact (length_numberSlots [] _).symm

theorem captures_snd_fst : (captures m).2.1 = (m.ofKind .sound).map (slotVar m) := by
  have h := slotVars_eq hnd
  rw [slotOrder, List.map_append, captures_fst hnd] at h
  exact (List.append_cancel_left h).symm

theorem slotVars_nodup : ((slotOrder m).map (slotVar m)).Nodup := by
  rw [slotVars_eq hnd, (captures_eq m).1, numberSlots_slotOrder hnd]
  exact List.nodup_range.map fun i j => captureName_injective

/-- A capture is a variable, and no parameter. -/
theorem head_slotVar {a : Asset} (ha : a ∈ m.assets) : (slotVar m a).toList.head? = some 't' := by
  obtain ⟨i, hi, rfl⟩ := List.getElem_of_mem (mem_slotOrder.2 ha)
  rw [slotVar_getElem hnd hi, toList_captureName, List.head?_cons]

theorem startsUppercase_slotVar {a : Asset} (ha : a ∈ m.assets) :
    Text.startsUppercase (slotVar m a) = false := by
  rw [Text.startsUppercase, head_slotVar hnd ha]
  decide

end

end TypedAssets.Pack
