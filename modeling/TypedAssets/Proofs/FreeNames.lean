import TypedAssets.Proofs.Functions
import TypedAssets.Proofs.Matching

/-!
# Free names

The free names of an expression are those it looks up: variables and the records that it reads or updates, except
where a branch around them binds the name. They are all that an evaluation takes from its environment
(`eval_congr`), so code without free names, such as the empty builder and the load lists of a pack, has one
outcome everywhere (`eval_depends_on_freeNames`).
-/

namespace TypedAssets

namespace Code

/-- Environments that bind each of some names to the same value, or both do not bind it. -/
def Env.AgreeOn (xs : List String) (env env' : Env) : Prop := ∀ x ∈ xs, env.get? x = env'.get? x

namespace Env.AgreeOn

variable {xs ys : List String} {env env' bindings : Env}

theorem left (h : AgreeOn (xs ++ ys) env env') : AgreeOn xs env env' := fun x hx => h x (List.mem_append_left _ hx)

theorem right (h : AgreeOn (xs ++ ys) env env') : AgreeOn ys env env' := fun x hx => h x (List.mem_append_right _ hx)

theorem lookup {x : String} (h : AgreeOn xs env env') (hx : x ∈ xs) : env.lookup x = env'.lookup x := by
  rw [Env.lookup, Env.lookup, h x hx]

/-- Where names are bound anew, the environments need not agree on them before. -/
theorem merge (h : AgreeOn (xs.filter (· ∉ ys)) env env') (hys : bindings.Binds ys) :
    AgreeOn xs (env.merge bindings) (env'.merge bindings) := by
  intro x hx
  rw [Fields.get?_merge hys.nodup, Fields.get?_merge hys.nodup]
  by_cases hmem : x ∈ ys
  · obtain ⟨v, hv⟩ := hys.exists_get? hmem
    rw [hv, Option.some_or, Option.some_or]
  · rw [h x (List.mem_filter.2 ⟨hx, decide_eq_true hmem⟩)]

end Env.AgreeOn

namespace Node

mutual

/-- The names that an expression looks up in its environment. -/
def freeNames : Node → List String
  | .var x => if Text.startsUppercase x then [] else [x]
  | .access r _ => [r]
  | .call _ ns | .list ns | .tuple ns => freeNamesAll ns
  | .record fs => freeNamesFields fs
  | .update r fs => r :: freeNamesFields fs
  | .case s bs _ => s.freeNames ++ freeNamesBranches bs
  | _ => []
termination_by structural n => n

def freeNamesAll : List Node → List String
  | [] => []
  | n :: ns => n.freeNames ++ freeNamesAll ns
termination_by structural ns => ns

def freeNamesFields : List (String × Node) → List String
  | [] => []
  | (_, n) :: fs => n.freeNames ++ freeNamesFields fs
termination_by structural fs => fs

/-- The free names of the bodies of branches, each without the variables of its pattern. -/
def freeNamesBranches : List (Node × Node) → List String
  | [] => []
  | (p, b) :: bs => b.freeNames.filter (· ∉ p.boundNames) ++ freeNamesBranches bs
termination_by structural bs => bs

end

mutual

theorem eval_congr {env env' : Env} {n : Node} (h : Env.AgreeOn n.freeNames env env') : n.eval env = n.eval env' := by
  cases n with
  | var x =>
    rw [eval, eval]
    by_cases hx : Text.startsUppercase x
    · rw [if_pos hx, if_pos hx]
    · rw [if_neg hx, if_neg hx]
      exact h.lookup (by simp [freeNames, hx])
  | access r f => rw [eval, eval, h.lookup List.mem_cons_self]
  | call f ns => rw [eval, eval, evalAll_congr h]
  | list ns => rw [eval, eval, evalAll_congr h]
  | tuple ns => rw [eval, eval, evalAll_congr h]
  | record fs => rw [eval, eval, evalFields_congr h]
  | update r fs =>
    have hfs : Env.AgreeOn (freeNamesFields fs) env env' := fun x hx => h x (List.mem_cons_of_mem _ hx)
    rw [eval, eval, h.lookup List.mem_cons_self]
    simp only [evalUpdates_congr hfs]
  | case s bs ty =>
    rw [eval, eval, eval_congr h.left]
    simp only [evalBranches_congr h.right]
  | _ => rfl
termination_by structural n

theorem evalAll_congr {env env' : Env} {ns : List Node} (h : Env.AgreeOn (freeNamesAll ns) env env') :
    evalAll env ns = evalAll env' ns := by
  match ns with
  | [] => rfl
  | n :: ns => rw [evalAll, evalAll, eval_congr h.left, evalAll_congr h.right]
termination_by structural ns

theorem evalFields_congr {env env' : Env} {fs : List (String × Node)}
    (h : Env.AgreeOn (freeNamesFields fs) env env') : evalFields env fs = evalFields env' fs := by
  match fs with
  | [] => rfl
  | (x, n) :: fs => rw [evalFields, evalFields, eval_congr h.left, evalFields_congr h.right]
termination_by structural fs

theorem evalUpdates_congr {env env' : Env} {fs : List (String × Node)}
    (h : Env.AgreeOn (freeNamesFields fs) env env') (record : Fields Value) :
    evalUpdates env record fs = evalUpdates env' record fs := by
  match fs with
  | [] => rfl
  | (x, n) :: fs =>
    rw [evalUpdates, evalUpdates, eval_congr h.left]
    simp only [evalUpdates_congr h.right]
termination_by structural fs

/-- The environments of a body may differ in the variables of its pattern, since the match binds all of them. -/
theorem evalBranches_congr {env env' : Env} {bs : List (Node × Node)}
    (h : Env.AgreeOn (freeNamesBranches bs) env env') (subject : Value) :
    evalBranches env subject bs = evalBranches env' subject bs := by
  match bs with
  | [] => rfl
  | (p, b) :: bs =>
    rw [evalBranches, evalBranches]
    cases hp : p.match? subject with
    | error e => rfl
    | ok matched =>
      cases matched with
      | none => exact evalBranches_congr h.right subject
      | some bindings => exact eval_congr (h.left.merge (match?_eq_some_iff.1 hp).binds)
termination_by structural bs

end

theorem freeNamesAll_eq_nil {ns : List Node} (h : ∀ n ∈ ns, n.freeNames = []) : freeNamesAll ns = [] := by
  induction ns with
  | nil => rfl
  | cons n ns ih =>
    obtain ⟨hn, hns⟩ := List.forall_mem_cons.1 h
    rw [freeNamesAll, hn, ih hns, List.append_nil]

theorem freeNamesFields_eq_nil {fs : List (String × Node)} (h : ∀ f ∈ fs, f.2.freeNames = []) :
    freeNamesFields fs = [] := by
  induction fs with
  | nil => rfl
  | cons f fs ih =>
    obtain ⟨hf, hfs⟩ := List.forall_mem_cons.1 h
    rw [freeNamesFields, hf, ih hfs, List.append_nil]

/-- Without free names an expression does not depend on its environment. -/
theorem exists_outcome {n : Node} (h : n.freeNames = []) : ∃ outcome, ∀ env, n.eval env = outcome :=
  ⟨n.eval [], fun _ => eval_congr (h ▸ fun _ hx => nomatch hx)⟩

end Node

end Code

namespace Pack

open Code

variable {m : Manifest}

theorem freeNames_initialBuilder (m : Manifest) : (initialBuilder m).body.freeNames = [] := by
  show Node.freeNamesFields (m.assets.map fun a => (a.field, .var "Nothing")) = []
  exact Node.freeNamesFields_eq_nil (List.forall_mem_map.2 fun _ _ => rfl)

theorem freeNames_loadCall {k : Kind} {a : Asset} (ha : Text.startsUppercase a.name = true) :
    (loadCall k a).freeNames = [] := by
  cases k with
  | texture => simp [loadCall, Node.freeNames, Node.freeNamesAll, ha]
  | sound => simp [loadCall, Node.freeNames, Node.freeNamesAll, ha]

theorem freeNames_loadList (hup : ∀ a ∈ m.assets, Text.startsUppercase a.name = true) (k : Kind) :
    (loadList m k).body.freeNames = [] := by
  show Node.freeNamesAll ((m.ofKind k).map (loadCall k)) = []
  refine Node.freeNamesAll_eq_nil (List.forall_mem_map.2 fun a ha => ?_)
  exact freeNames_loadCall (hup a (Manifest.mem_ofKind.1 ha).1)

/-- Environments that agree on the free names of an expression give it the same value or the same error. So
without free names it has one outcome, as the empty builder and the load lists have whose keys are constructors. -/
theorem eval_depends_on_freeNames :
    (∀ (e : Node) (env env' : Env), (∀ x ∈ e.freeNames, env.get? x = env'.get? x) → e.eval env = e.eval env') ∧
      (∀ e : Node, e.freeNames = [] → ∃ outcome, ∀ env, e.eval env = outcome) ∧
      ∀ m : Manifest, (∀ a ∈ m.assets, Text.startsUppercase a.name = true) →
        ∀ name ∈ [initialName, loadListName .texture, loadListName .sound], ∃ f,
          m.packModule.find name = .ok f ∧ f.body.freeNames = [] ∧
            ∃ outcome, ∀ env, f.body.eval env = outcome := by
  refine ⟨fun e env env' h => Node.eval_congr h, fun e he => Node.exists_outcome he, fun m hup => ?_⟩
  have hlist (k : Kind) : ∃ f, m.packModule.find (loadListName k) = .ok f ∧ f.body.freeNames = [] ∧
      ∃ outcome, ∀ env, f.body.eval env = outcome :=
    ⟨_, find_loadListName m k, freeNames_loadList hup k, Node.exists_outcome (freeNames_loadList hup k)⟩
  have hinitial := freeNames_initialBuilder m
  refine List.forall_mem_cons.2 ⟨⟨_, rfl, hinitial, Node.exists_outcome hinitial⟩, ?_⟩
  exact List.forall_mem_cons.2 ⟨hlist .texture, List.forall_mem_singleton.2 (hlist .sound)⟩

/-- A branch that binds a name of the environment anew: environments may differ in it, or lack it. -/
theorem eval_depends_on_freeNames_shadowed :
    let e : Node := .case (.var "slot") [(.call "Just" [.var "x"], .tuple [.var "x", .access "pack" "troll"])] none
    let env : Env := [("slot", .just (.int 1)), ("x", .null), ("pack", .record [("troll", .int 2)])]
    let env' : Env := [("pack", .record [("troll", .int 2)]), ("slot", .just (.int 1))]
    let m : Manifest := ⟨[⟨.sound, "ZombieDie", "die"⟩]⟩
    e.freeNames = ["slot", "pack"] ∧ (∀ x ∈ e.freeNames, env.get? x = env'.get? x) ∧ e.eval env = e.eval env' ∧
      (∀ a ∈ m.assets, Text.startsUppercase a.name = true) ∧
      ∃ f outcome, m.packModule.find "loadAllSounds" = .ok f ∧ f.body.eval env = outcome ∧
        f.body.eval env' = outcome := by
  intro e env env' m
  have hfree : e.freeNames = ["slot", "pack"] := by decide
  have hagree : ∀ x ∈ e.freeNames, env.get? x = env'.get? x := by
    rw [hfree]
    exact List.forall_mem_cons.2 ⟨rfl, List.forall_mem_singleton.2 rfl⟩
  have hup : ∀ a ∈ m.assets, Text.startsUppercase a.name = true := by decide
  obtain ⟨hcongr, -, hpack⟩ := eval_depends_on_freeNames
  obtain ⟨f, hf, -, outcome, houtcome⟩ := hpack m hup "loadAllSounds" (by decide)
  exact ⟨hfree, hagree, hcongr e env env' hagree, hup, f, outcome, hf, houtcome env, houtcome env'⟩

end Pack

end TypedAssets
