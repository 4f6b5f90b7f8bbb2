import Mathlib.Data.List.Nodup
import TypedAssets.Fields

/-!
# Fields with distinct names

`Fields.set` and `Fields.merge` search for the name they bind. Where no name is bound twice the search
is not visible: binding fresh names appends them (`merge_eq_append`), and on fields made from a list
of things with a name each, `set` changes the value of one of them (`set_map`).
-/

namespace TypedAssets.Fields

variable {α β : Type} {fs gs : Fields α} {x : String} {a : α}

theorem set_of_not_mem (h : x ∉ fs.names) : fs.set x a = fs ++ [(x, a)] := by
  induction fs with
  | nil => rfl
  | cons f fs ih =>
    simp only [names, List.map_cons, List.mem_cons, not_or] at h
    rw [set, if_neg (Ne.symm h.1), List.cons_append]
    exact congrArg (f :: ·) (ih h.2)

theorem mem_set {f : String × α} (h : f ∈ fs.set x a) : f ∈ fs ∨ f = (x, a) := by
  induction fs with
  | nil => exact .inr (List.mem_singleton.1 h)
  | cons g fs ih =>
    rw [set] at h
    split at h
    · rcases List.mem_cons.1 h with h | h
      · exact .inr h
      · exact .inl (List.mem_cons_of_mem _ h)
    · rcases List.mem_cons.1 h with rfl | h
      · exact .inl List.mem_cons_self
      · exact (ih h).imp_left (List.mem_cons_of_mem _)

theorem mem_names_set {y : String} : y ∈ (fs.set x a).names ↔ y ∈ fs.names ∨ y = x := by
  by_cases hx : x ∈ fs.names
  · rw [names_set_of_mem hx]
    exact (or_iff_left_of_imp fun hy => hy ▸ hx).symm
  · rw [names_set_of_not_mem hx, List.mem_append, List.mem_singleton]

/-- Two names that are bound can be bound anew in either order. -/
theorem set_comm {y : String} {b : α} (hx : x ∈ fs.names) (hy : y ∈ fs.names) (hxy : x ≠ y) :
    (fs.set x a).set y b = (fs.set y b).set x a := by
  induction fs with
  | nil => cases hx
  | cons f fs ih =>
    by_cases hfx : f.1 = x
    · simp [set, hfx, hxy]
    · by_cases hfy : f.1 = y
      · simp [set, hfy, Ne.symm hxy]
      · have hx := (List.mem_cons.1 hx).resolve_left (Ne.symm hfx)
        have hy := (List.mem_cons.1 hy).resolve_left (Ne.symm hfy)
        simp [set, hfx, hfy, ih hx hy]

theorem mem_of_get?_eq_some (h : fs.get? x = some a) : (x, a) ∈ fs := by
  induction fs with
  | nil => cases h
  | cons g fs ih =>
    rw [get?_cons] at h
    split at h
    · next hx =>
      obtain rfl := Option.some.inj h
      rw [← hx]
      exact List.mem_cons_self
    · exact List.mem_cons_of_mem _ (ih h)

theorem merge_eq_append (hgs : gs.names.Nodup) (hd : ∀ y ∈ gs.names, y ∉ fs.names) :
    fs.merge gs = fs ++ gs := by
  induction gs generalizing fs with
  | nil => simp
  | cons g gs ih =>
    obtain ⟨hg, hgs⟩ := List.nodup_cons.1 hgs
    have hfresh : g.1 ∉ fs.names := hd g.1 List.mem_cons_self
    rw [merge_cons, set_of_not_mem hfresh, ih hgs, List.append_assoc, List.singleton_append]
    intro y hy hmem
    simp only [names, List.map_append, List.mem_append, List.map_cons, List.map_nil,
      List.mem_singleton] at hmem
    rcases hmem with hmem | rfl
    · exact hd y (List.mem_cons_of_mem _ hy) hmem
    · exact hg hy

theorem ofList_of_nodup (h : gs.names.Nodup) : ofList gs = gs :=
  merge_eq_append h fun _ _ => List.not_mem_nil

theorem get?_eq_some_of_mem (hnd : fs.names.Nodup) (h : (x, a) ∈ fs) : fs.get? x = some a := by
  induction fs with
  | nil => simp at h
  | cons f fs ih =>
    obtain ⟨hf, hnd⟩ := List.nodup_cons.1 hnd
    rw [get?_cons]
    rcases List.mem_cons.1 h with rfl | h
    · rw [if_pos rfl]
    · rw [if_neg, ih hnd h]
      intro he
      exact hf (List.mem_map.2 ⟨_, h, he.symm⟩)

theorem get?_eq_some_iff (hnd : fs.names.Nodup) : fs.get? x = some a ↔ (x, a) ∈ fs :=
  ⟨mem_of_get?_eq_some, get?_eq_some_of_mem hnd⟩

/-- Fields in another order are the same map. -/
theorem get?_perm (hnd : fs.names.Nodup) (h : gs.Perm fs) (x : String) : gs.get? x = fs.get? x := by
  have hnd' : gs.names.Nodup := (h.map Prod.fst).nodup_iff.2 hnd
  refine Option.ext fun a => ?_
  rw [get?_eq_some_iff hnd', get?_eq_some_iff hnd, h.mem_iff]

/-- Fields with the names of `gs` and no others, and with what `gs` binds them to. -/
theorem perm_of_get? (hnd : fs.names.Nodup) (hnd' : gs.names.Nodup) (hnames : ∀ y ∈ fs.names, y ∈ gs.names)
    (h : ∀ g ∈ gs, fs.get? g.1 = some g.2) : fs.Perm gs := by
  refine (List.perm_ext_iff_of_nodup (List.Nodup.of_map _ hnd) (List.Nodup.of_map _ hnd')).2 fun f => ?_
  refine ⟨fun hf => ?_, fun hf => mem_of_get?_eq_some (h f hf)⟩
  obtain ⟨g, hg, hname⟩ := List.mem_map.1 (hnames f.1 (List.mem_map_of_mem hf))
  have hvalue : some g.2 = some f.2 := by
    rw [← h g hg, hname]
    exact get?_eq_some_of_mem hnd hf
  rwa [← Prod.ext hname (Option.some.inj hvalue)]

theorem get?_merge_of_not_mem (h : x ∉ gs.names) : (fs.merge gs).get? x = fs.get? x := by
  induction gs generalizing fs with
  | nil => rfl
  | cons g gs ih =>
    simp only [names, List.map_cons, List.mem_cons, not_or] at h
    rw [merge_cons, ih h.2, get?_set_of_ne (Ne.symm h.1)]

theorem get?_merge_of_mem (hnd : gs.names.Nodup) (h : (x, a) ∈ gs) :
    (fs.merge gs).get? x = some a := by
  induction gs generalizing fs with
  | nil => simp at h
  | cons g gs ih =>
    obtain ⟨hg, hnd⟩ := List.nodup_cons.1 hnd
    rw [merge_cons]
    rcases List.mem_cons.1 h with rfl | h
    · rw [get?_merge_of_not_mem hg, get?_set_self]
    · exact ih hnd h

/-- What is bound last counts. -/
theorem get?_merge (hnd : gs.names.Nodup) : (fs.merge gs).get? x = (gs.get? x).or (fs.get? x) := by
  cases hx : gs.get? x with
  | none =>
    have hmem : x ∉ gs.names := by
      rw [← isSome_get?_iff, hx]
      exact Bool.false_ne_true
    rw [get?_merge_of_not_mem hmem, Option.none_or]
  | some a => rw [get?_merge_of_mem hnd (mem_of_get?_eq_some hx), Option.some_or]

theorem mem_names_merge : x ∈ (fs.merge gs).names ↔ x ∈ fs.names ∨ x ∈ gs.names := by
  induction gs generalizing fs with
  | nil => simp [names]
  | cons g gs ih =>
    rw [merge_cons, ih, mem_names_set, or_assoc]
    exact or_congr_right List.mem_cons.symm

theorem nodup_names_set (hnd : fs.names.Nodup) : (fs.set x a).names.Nodup := by
  by_cases hx : x ∈ fs.names
  · rwa [names_set_of_mem hx]
  · rw [names_set_of_not_mem hx]
    exact List.nodup_append_comm.1 (List.nodup_cons.2 ⟨hx, hnd⟩)

theorem nodup_names_merge (hnd : fs.names.Nodup) : (fs.merge gs).names.Nodup := by
  induction gs generalizing fs with
  | nil => exact hnd
  | cons g gs ih => exact ih (nodup_names_set hnd)

section

variable {as : List β} {name : β → String} {value : β → α} {b : β}

@[simp] theorem names_map : names (as.map fun b => (name b, value b)) = as.map name := by
  rw [names, List.map_map]
  rfl

theorem get?_map (hnd : (as.map name).Nodup) (hb : b ∈ as) :
    get? (as.map fun b => (name b, value b)) (name b) = some (value b) :=
  get?_eq_some_of_mem (by rwa [names_map]) (List.mem_map_of_mem hb)

theorem set_map [DecidableEq β] (hnd : (as.map name).Nodup) (hb : b ∈ as) :
    set (as.map fun b => (name b, value b)) (name b) a =
      as.map fun c => (name c, if c = b then a else value c) := by
  induction as with
  | nil => simp at hb
  | cons c as ih =>
    obtain ⟨hc, hnd⟩ := List.nodup_cons.1 hnd
    rw [List.map_cons, List.map_cons, set]
    rcases List.mem_cons.1 hb with rfl | hb
    · rw [if_pos rfl, if_pos rfl]
      congr 1
      refine List.map_congr_left fun d hd => ?_
      have hdb : d ≠ b := by
        rintro rfl
        exact hc (List.mem_map_of_mem hd)
      rw [if_neg hdb]
    · have hcb : name c ≠ name b := fun h => hc (h ▸ List.mem_map_of_mem hb)
      have hcb' : c ≠ b := fun h => hcb (congrArg name h)
      rw [if_neg hcb, if_neg hcb', ih hnd hb]

end

end TypedAssets.Fields
