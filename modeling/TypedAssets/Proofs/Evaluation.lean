import TypedAssets.Code.Eval
import TypedAssets.Proofs.Fields

/-!
# Evaluation of generated forms

What the forms that make up a generated module compute: a case with one branch per constructor
(`evalBranches_constants`), reads of the fields of a record (`evalAll_accesses`), and a list of
patterns for filled slots (`matchAll?_filled`).
-/

namespace TypedAssets.Code

/-- What a filled slot holds. -/
def Value.content? : Value → Option Value
  | .ctor c [v] => if c = "Just" then some v else none
  | _ => none

@[simp] theorem Value.content?_just (v : Value) : v.just.content? = some v := rfl

theorem Value.content?_eq_some_iff {v w : Value} : v.content? = some w ↔ v = w.just := by
  refine ⟨fun h => ?_, fun h => by rw [h, content?_just]⟩
  unfold content? at h
  split at h
  · next c v =>
    split at h
    · next hc =>
      obtain rfl := Option.some.inj h
      rw [hc, just]
    · cases h
  · cases h

namespace Node
variable {env : Env}

theorem match?_constant {x : String} (hx : Text.startsUppercase x = true) (key : String) :
    (var x).match? (.ctor key []) = .ok (if key = x then some [] else none) := by
  simp [match?, hx, Value.isConstant]

/-- A case with one branch per constant takes the branch of its subject, without new bindings. -/
theorem evalBranches_constants {α : Type} {as : List α} {name : α → String} (body : α → Node)
    (hname : ∀ a ∈ as, Text.startsUppercase (name a) = true) (key : String) :
    evalBranches env (.ctor key []) (as.map fun a => (.var (name a), body a)) =
      match as.find? fun a => name a = key with
      | some a => (body a).eval env
      | none => .error (.noMatchingBranch (.ctor key [])) := by
  induction as with
  | nil => rfl
  | cons a as ih =>
    have ha := match?_constant (hname a List.mem_cons_self) key
    have ih := ih fun b hb => hname b (List.mem_cons_of_mem _ hb)
    rw [List.map_cons, evalBranches, ha, List.find?_cons]
    by_cases hk : key = name a
    · simp [hk, bind, Except.bind]
    · simp only [if_neg hk, decide_eq_false (Ne.symm hk)]
      exact ih

variable {r : String} {fs : Fields Value}

theorem eval_access (hr : env.get? r = some (.record fs)) (x : String) :
    (access r x).eval env = (fs.get? x).elim (.error (.missingField x)) .ok := by
  simp [eval, Env.lookup, hr, bind, Except.bind, Value.field, Value.fields]

theorem evalAll_map {α : Type} {as : List α} {node : α → Node} {value : α → Value}
    (h : ∀ a ∈ as, (node a).eval env = .ok (value a)) :
    evalAll env (as.map node) = .ok (as.map value) := by
  induction as with
  | nil => rfl
  | cons a as ih =>
    rw [List.map_cons, evalAll, h a List.mem_cons_self, ih fun b hb => h b (List.mem_cons_of_mem _ hb)]
    rfl

theorem evalAll_accesses {α : Type} {as : List α} {field : α → String} {value : α → Value}
    (hr : env.get? r = some (.record fs)) (h : ∀ a ∈ as, fs.get? (field a) = some (value a)) :
    evalAll env (as.map fun a => .access r (field a)) = .ok (as.map value) :=
  evalAll_map fun a ha => by
    rw [eval_access hr, h a ha]
    rfl

/-- The first field that the record lacks is the one complained about. -/
theorem evalAll_accesses_missing {α : Type} {as : List α} {field : α → String} {a : α}
    (hr : env.get? r = some (.record fs))
    (h : (as.find? fun a => (fs.get? (field a)).isNone) = some a) :
    evalAll env (as.map fun a => .access r (field a)) = .error (.missingField (field a)) := by
  induction as with
  | nil => cases h
  | cons b as ih =>
    rw [List.map_cons, evalAll, eval_access hr]
    rw [List.find?_cons] at h
    cases hb : fs.get? (field b) with
    | none =>
      simp only [hb, Option.isNone_none, Option.some.injEq] at h
      rw [h]
      rfl
    | some v =>
      simp only [hb, Option.isNone_some] at h
      rw [ih h]
      rfl

theorem evalFields_map {α : Type} {as : List α} {field : α → String} {node : α → Node}
    {value : α → Value} (h : ∀ a ∈ as, (node a).eval env = .ok (value a)) :
    evalFields env (as.map fun a => (field a, node a)) =
      .ok (as.map fun a => (field a, value a)) := by
  induction as with
  | nil => rfl
  | cons a as ih =>
    rw [List.map_cons, evalFields, h a List.mem_cons_self,
      ih fun b hb => h b (List.mem_cons_of_mem _ hb)]
    rfl

/-- A record expression with distinct fields gives a record with these fields in this order. -/
theorem eval_record_map {α : Type} {as : List α} {field : α → String} {node : α → Node}
    {value : α → Value} (hnd : (as.map field).Nodup)
    (h : ∀ a ∈ as, (node a).eval env = .ok (value a)) :
    (record (as.map fun a => (field a, node a))).eval env =
      .ok (.record (as.map fun a => (field a, value a))) := by
  rw [eval, evalFields_map h]
  show Except.ok (Value.record (Fields.ofList _)) = _
  rw [Fields.ofList_of_nodup (by rwa [Fields.names_map])]

theorem match?_filled {x : String} (hx : Text.startsUppercase x = false) (v : Value) :
    (call "Just" [.var x]).match? v = .ok (v.content?.map fun w => [(x, w)]) := by
  match v with
  | .ctor c [w] =>
    by_cases hc : c = "Just"
    · simp [match?, matchAll?, Value.content?, hc, hx, bind, Except.bind, pure, Except.pure,
        Fields.merge]
    · simp [match?, Value.content?, hc]
  | .ctor c [] | .ctor c (_ :: _ :: _) => simp [match?, Value.content?]
  | .null | .bool _ | .int _ | .float _ | .text _ | .list _ | .tuple _ | .record _ =>
    simp [match?, Value.content?]

section

variable {α : Type} {as : List α} {x : α → String} {value : α → Value}

/-- Patterns for filled slots, with a variable of its own for each, bind what the slots hold. -/
theorem matchAll?_filled {content : α → Value} (hx : ∀ a ∈ as, Text.startsUppercase (x a) = false)
    (hnd : (as.map x).Nodup) (h : ∀ a ∈ as, (value a).content? = some (content a)) :
    matchAll? (as.map fun a => .call "Just" [.var (x a)]) (as.map value) =
      .ok (some (as.map fun a => (x a, content a))) := by
  induction as with
  | nil => rfl
  | cons a as ih =>
    obtain ⟨ha, hnd⟩ := List.nodup_cons.1 hnd
    have hmerge : Fields.merge [(x a, content a)] (as.map fun b => (x b, content b)) =
        (x a, content a) :: as.map fun b => (x b, content b) := by
      refine Fields.merge_eq_append (by rwa [Fields.names_map]) fun y hy hya => ?_
      rw [Fields.names_map] at hy
      obtain rfl : y = x a := by simpa [Fields.names] using hya
      exact ha hy
    rw [List.map_cons, List.map_cons, List.map_cons, matchAll?,
      match?_filled (hx a List.mem_cons_self), h a List.mem_cons_self,
      ih (fun b hb => hx b (List.mem_cons_of_mem _ hb)) hnd fun b hb => h b (List.mem_cons_of_mem _ hb)]
    exact congrArg (fun env => Except.ok (some env)) hmerge

/-- One empty slot is enough for the patterns not to match. -/
theorem matchAll?_unfilled {a : α} (hx : ∀ a ∈ as, Text.startsUppercase (x a) = false) (ha : a ∈ as)
    (h : (value a).content? = none) :
    matchAll? (as.map fun a => .call "Just" [.var (x a)]) (as.map value) = .ok none := by
  induction as with
  | nil => cases ha
  | cons b as ih =>
    rw [List.map_cons, List.map_cons, matchAll?, match?_filled (hx b List.mem_cons_self)]
    rcases List.mem_cons.1 ha with rfl | ha
    · rw [h]
      rfl
    · have ih := ih (fun c hc => hx c (List.mem_cons_of_mem _ hc)) ha
      cases (value b).content? with
      | none => rfl
      | some w =>
        simp only [Option.map_some, bind, Except.bind]
        rw [ih]
        rfl

end

end Node

end TypedAssets.Code
