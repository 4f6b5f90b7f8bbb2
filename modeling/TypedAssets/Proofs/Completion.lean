import TypedAssets.Proofs.Captures
import TypedAssets.Proofs.Evaluation

/-!
# The completion check on any record

On a record that lacks a slot the check fails with the first one it reads (`tryBuild_apply_missing`).
On any other it gives the pack if every slot is filled (`tryBuild_apply_complete`) and nothing if one is
not (`tryBuild_apply_incomplete`), whatever other fields the record has.
-/

namespace TypedAssets.Pack

open Code

variable {m : Manifest} {b : Fields Value}

/-- What the completion check runs with. -/
def builderEnv (b : Fields Value) : Env := [("builder", .record b)]

/-- The slots as the completion check groups them. -/
def groupedSlots (m : Manifest) : Node := .tuple [slots m .texture, slots m .sound]

/-- The pattern of a full builder. -/
def fullPattern (m : Manifest) : Node :=
  .tuple [.list ((captures m).1.map justVar), .list ((captures m).2.1.map justVar)]

theorem tryBuild_apply (m : Manifest) (b : Fields Value) :
    (tryBuild m).apply [.record b] = (groupedSlots m).eval (builderEnv b) >>= fun v =>
      Node.evalBranches (builderEnv b) v
        [(fullPattern m, .call "Just" [completed m]), (.wildcard, .var "Nothing")] := rfl

theorem get?_builderEnv (b : Fields Value) : (builderEnv b).get? "builder" = some (.record b) := rfl

theorem eval_groupedSlots {value : Asset → Value}
    (h : ∀ a ∈ m.assets, b.get? a.field = some (value a)) :
    (groupedSlots m).eval (builderEnv b) =
      .ok (.tuple [.list ((m.ofKind .texture).map value), .list ((m.ofKind .sound).map value)]) := by
  have hk (k : Kind) : (slots m k).eval (builderEnv b) = .ok (.list ((m.ofKind k).map value)) := by
    rw [slots, Node.eval, Node.evalAll_accesses (get?_builderEnv b) fun a ha =>
      h a (Manifest.mem_ofKind.1 ha).1]
    rfl
  rw [groupedSlots, Node.eval, Node.evalAll, Node.evalAll, Node.evalAll, hk, hk]
  rfl

theorem eval_groupedSlots_missing {a : Asset}
    (h : (slotOrder m).find? (fun a => (b.get? a.field).isNone) = some a) :
    (groupedSlots m).eval (builderEnv b) = .error (.missingField a.field) := by
  rw [slotOrder, List.find?_append] at h
  rw [groupedSlots, Node.eval, Node.evalAll, Node.evalAll, slots, slots, Node.eval, Node.eval]
  cases ht : (m.ofKind .texture).find? fun a => (b.get? a.field).isNone with
  | some a' =>
    rw [ht] at h
    obtain rfl : a' = a := by simpa using h
    rw [Node.evalAll_accesses_missing (get?_builderEnv b) ht]
    rfl
  | none =>
    rw [ht, Option.none_or] at h
    obtain ⟨value, hv⟩ : ∃ value : Asset → Value, ∀ a ∈ m.ofKind .texture,
        b.get? a.field = some (value a) := by
      refine ⟨fun a => (b.get? a.field).getD .null, fun a ha => ?_⟩
      have := List.find?_eq_none.1 ht a ha
      cases hb : b.get? a.field with
      | none => simp [hb] at this
      | some v => simp [hb]
    rw [Node.evalAll_accesses (get?_builderEnv b) hv,
      Node.evalAll_accesses_missing (get?_builderEnv b) h]
    rfl

section

variable (hnd : (m.assets.map Asset.field).Nodup)
include hnd

theorem fullPattern_eq :
    fullPattern m = .tuple
      [.list ((m.ofKind .texture).map fun a => .call "Just" [.var (slotVar m a)]),
        .list ((m.ofKind .sound).map fun a => .call "Just" [.var (slotVar m a)])] := by
  rw [fullPattern, captures_fst hnd, captures_snd_fst hnd, List.map_map, List.map_map]
  rfl

theorem slotVars_kind_nodup (k : Kind) : ((m.ofKind k).map (slotVar m)).Nodup := by
  refine (slotVars_nodup hnd).sublist (List.Sublist.map _ ?_)
  cases k
  · exact List.sublist_append_left _ _
  · exact List.sublist_append_right _ _

theorem startsUppercase_slotVar_of_mem_ofKind {k : Kind} :
    ∀ a ∈ m.ofKind k, Text.startsUppercase (slotVar m a) = false := fun _ ha =>
  startsUppercase_slotVar hnd (Manifest.mem_ofKind.1 ha).1

/-- On full slots the pattern binds the content of every slot to the slot's own variable. -/
theorem match?_fullPattern_full {content : Asset → Value} :
    (fullPattern m).match? (.tuple [.list ((m.ofKind .texture).map fun a => (content a).just),
      .list ((m.ofKind .sound).map fun a => (content a).just)]) =
      .ok (some ((slotOrder m).map fun a => (slotVar m a, content a))) := by
  have hk (k : Kind) :
      Node.matchAll? ((m.ofKind k).map fun a => .call "Just" [.var (slotVar m a)])
        ((m.ofKind k).map fun a => (content a).just) =
          .ok (some ((m.ofKind k).map fun a => (slotVar m a, content a))) :=
    Node.matchAll?_filled (startsUppercase_slotVar_of_mem_ofKind hnd) (slotVars_kind_nodup hnd k)
      fun a _ => Value.content?_just (content a)
  have hmerge : Fields.merge ((m.ofKind .texture).map fun a => (slotVar m a, content a))
      (Fields.merge ((m.ofKind .sound).map fun a => (slotVar m a, content a)) []) =
      (slotOrder m).map fun a => (slotVar m a, content a) := by
    have hall := slotVars_nodup hnd
    rw [slotOrder, List.map_append, List.nodup_append] at hall
    rw [Fields.merge_nil, slotOrder, List.map_append]
    refine Fields.merge_eq_append (by rw [Fields.names_map]; exact hall.2.1) fun y hs ht => ?_
    rw [Fields.names_map] at hs ht
    exact hall.2.2 y ht y hs rfl
  simp only [fullPattern_eq hnd, Node.match?, List.length_map, if_true, Node.matchAll?, List.length_cons,
    List.length_nil, hk, bind, Except.bind, pure, Except.pure]
  rw [hmerge]

/-- A slot that is not filled keeps the pattern of its kind from matching, and so the whole. -/
theorem match?_fullPattern_of_unfilled {value : Asset → Value} {a : Asset} (ha : a ∈ m.assets)
    (h : (value a).content? = none) :
    (fullPattern m).match? (.tuple [.list ((m.ofKind .texture).map value),
      .list ((m.ofKind .sound).map value)]) = .ok none := by
  have hunfilled (k : Kind) {a : Asset} (ha : a ∈ m.ofKind k) (h : (value a).content? = none) :=
    Node.matchAll?_unfilled (startsUppercase_slotVar_of_mem_ofKind hnd (k := k)) ha h
  by_cases ht : ∃ t ∈ m.ofKind .texture, (value t).content? = none
  · obtain ⟨t, ht, h⟩ := ht
    simp only [fullPattern_eq hnd, Node.match?, List.length_map, if_true, Node.matchAll?,
      List.length_cons, List.length_nil, hunfilled .texture ht h, bind, Except.bind, pure, Except.pure]
  · have hs : a ∈ m.ofKind .sound := by
      refine Manifest.mem_ofKind.2 ⟨ha, ?_⟩
      cases hk : a.kind with
      | texture => exact absurd ⟨a, Manifest.mem_ofKind.2 ⟨ha, hk⟩, h⟩ ht
      | sound => rfl
    have hfull : ∀ t ∈ m.ofKind .texture, (value t).content? = some ((value t).content?.getD .null) := by
      intro t htm
      cases hc : (value t).content? with
      | none => exact absurd ⟨t, htm, hc⟩ ht
      | some v => rfl
    have hfilled := Node.matchAll?_filled (startsUppercase_slotVar_of_mem_ofKind hnd (k := .texture))
      (slotVars_kind_nodup hnd .texture) hfull
    simp only [fullPattern_eq hnd, Node.match?, List.length_map, if_true, Node.matchAll?,
      List.length_cons, List.length_nil, hfilled, hunfilled .sound hs h, bind, Except.bind, pure,
      Except.pure]

/-- With the captures in scope the completed record holds, field by field, what the slots held. -/
theorem eval_completed (env : Env) (content : Asset → Value) :
    (completed m).eval (env.merge ((slotOrder m).map fun a => (slotVar m a, content a))) =
      .ok (.record (m.assets.map fun a => (a.field, content a))) := by
  refine Node.eval_record_map hnd fun a ha => ?_
  have hget : Fields.get? (env.merge ((slotOrder m).map fun a => (slotVar m a, content a)))
      (slotVar m a) = some (content a) := by
    refine Fields.get?_merge_of_mem ?_ (List.mem_map.2 ⟨a, mem_slotOrder.2 ha, rfl⟩)
    rw [Fields.names_map]
    exact slotVars_nodup hnd
  show (Node.var (slotVar m a)).eval _ = _
  rw [Node.eval, startsUppercase_slotVar hnd ha, Env.lookup, hget]
  rfl

end

theorem tryBuild_apply_missing {a : Asset}
    (h : (slotOrder m).find? (fun a => (b.get? a.field).isNone) = some a) :
    (tryBuild m).apply [.record b] = .error (.missingField a.field) := by
  rw [tryBuild_apply, eval_groupedSlots_missing h]
  rfl

theorem tryBuild_apply_complete (hnd : (m.assets.map Asset.field).Nodup) {content : Asset → Value}
    (h : ∀ a ∈ m.assets, b.get? a.field = some (content a).just) :
    (tryBuild m).apply [.record b] =
      .ok (.just (.record (m.assets.map fun a => (a.field, content a)))) := by
  rw [tryBuild_apply, eval_groupedSlots h]
  show Node.evalBranches (builderEnv b) _ _ = _
  rw [Node.evalBranches, match?_fullPattern_full hnd]
  show (Node.call "Just" [completed m]).eval _ = _
  rw [Node.eval, Node.evalAll, Node.evalAll, eval_completed hnd]
  rfl

theorem tryBuild_apply_incomplete (hnd : (m.assets.map Asset.field).Nodup) {value : Asset → Value}
    (h : ∀ a ∈ m.assets, b.get? a.field = some (value a)) {a : Asset} (ha : a ∈ m.assets)
    (hc : (value a).content? = none) : (tryBuild m).apply [.record b] = .ok .nothing := by
  rw [tryBuild_apply, eval_groupedSlots h]
  show Node.evalBranches (builderEnv b) _ _ = _
  rw [Node.evalBranches, match?_fullPattern_of_unfilled hnd ha hc]
  rfl

end TypedAssets.Pack
