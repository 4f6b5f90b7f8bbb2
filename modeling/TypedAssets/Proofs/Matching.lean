import TypedAssets.Code.Eval
import TypedAssets.Proofs.Fields
import TypedAssets.Proofs.Outcomes
import TypedAssets.Proofs.Scope

/-!
# Matching and evaluation

A pattern without wildcards can be read as an expression. `Matches` says which bindings a pattern makes on which
value; matching computes them (`match?_eq_some_iff`), and they are one for each variable of the pattern
(`Matches.binds`). With these bindings the pattern evaluates to the value that it was matched against, and a
value that it evaluates to is matched with the bindings that it was evaluated with (`match_eval_inverse`).
-/

namespace TypedAssets.Code

/-- Variables with a value each, and no others. -/
structure Env.Binds (env : Env) (xs : List String) : Prop where
  nodup : env.names.Nodup
  mem_names_iff : ∀ x, x ∈ env.names ↔ x ∈ xs

namespace Env.Binds

variable {env env' : Env} {xs ys : List String}

theorem nil : Env.Binds [] [] := ⟨List.nodup_nil, fun _ => Iff.rfl⟩

theorem single (x : String) (v : Value) : Env.Binds [(x, v)] [x] := ⟨List.nodup_singleton x, fun _ => Iff.rfl⟩

theorem merge (h : env.Binds xs) (h' : env'.Binds ys) : Env.Binds (Fields.merge env env') (xs ++ ys) := by
  refine ⟨Fields.nodup_names_merge h.nodup, fun x => ?_⟩
  rw [Fields.mem_names_merge, h.mem_names_iff, h'.mem_names_iff, List.mem_append]

theorem get?_eq_none (h : env.Binds xs) {x : String} (hx : x ∉ xs) : env.get? x = none := by
  have hnames := mt (h.mem_names_iff x).1 hx
  rwa [← Fields.isSome_get?_iff, Bool.not_eq_true, Option.isSome_eq_false_iff, Option.isNone_iff_eq_none] at hnames

theorem exists_get? (h : env.Binds xs) {x : String} (hx : x ∈ xs) : ∃ v, env.get? x = some v :=
  Option.isSome_iff_exists.1 (Fields.isSome_get?_iff.2 ((h.mem_names_iff x).2 hx))

end Env.Binds

namespace Node

mutual

/-- A pattern matches a value and makes some bindings. -/
inductive Matches : Node → Value → Env → Prop
  | wildcard {v : Value} : Matches .wildcard v []
  | var {x : String} {v : Value} (hx : Text.startsUppercase x = false) : Matches (.var x) v [(x, v)]
  | constant {c : String} (hc : Text.startsUppercase c = true) : Matches (.var c) (.ctor c []) []
  | call {c : String} {ps : List Node} {vs : List Value} {env : Env} (h : MatchesAll ps vs env) :
      Matches (.call c ps) (.ctor c vs) env
  | list {ps : List Node} {vs : List Value} {env : Env} (h : MatchesAll ps vs env) :
      Matches (.list ps) (.list vs) env
  | tuple {ps : List Node} {vs : List Value} {env : Env} (h : MatchesAll ps vs env) :
      Matches (.tuple ps) (.tuple vs) env

/-- Patterns match as many values and make some bindings together. -/
inductive MatchesAll : List Node → List Value → Env → Prop
  | nil : MatchesAll [] [] []
  | cons {p : Node} {ps : List Node} {v : Value} {vs : List Value} {env env' : Env} (h : Matches p v env)
      (hs : MatchesAll ps vs env') : MatchesAll (p :: ps) (v :: vs) (Fields.merge env env')

end

theorem MatchesAll.length_eq {ps : List Node} {vs : List Value} {env : Env} (h : MatchesAll ps vs env) :
    ps.length = vs.length := by
  induction ps generalizing vs env with
  | nil =>
    cases h
    rfl
  | cons p ps ih =>
    rcases h with _ | ⟨_, hs⟩
    rw [List.length_cons, List.length_cons, ih hs]

theorem isConstant_iff {v : Value} {c : String} : v.isConstant c ↔ v = .ctor c [] := by
  unfold Value.isConstant
  split
  · simp
  · next h => exact iff_of_false Bool.false_ne_true (h c)

section

variable {p : Node} {ps : List Node} {v : Value} {vs : List Value} {env : Env}

theorem match?_var_eq_some_iff {x : String} :
    (var x).match? v = .ok (some env) ↔ Matches (.var x) v env := by
  rw [match?]
  by_cases hx : Text.startsUppercase x
  · rw [if_pos hx]
    by_cases hv : v.isConstant x
    · obtain rfl := isConstant_iff.1 hv
      rw [if_pos hv]
      refine ⟨fun h => ?_, fun h => ?_⟩
      · cases h
        exact .constant hx
      · rcases h with _ | hx' | _
        · exact absurd hx (hx' ▸ Bool.false_ne_true)
        · rfl
    · rw [if_neg hv]
      refine iff_of_false (fun h => nomatch h) fun h => ?_
      rcases h with _ | hx' | _
      · exact absurd hx (hx' ▸ Bool.false_ne_true)
      · exact hv (isConstant_iff.2 rfl)
  · rw [if_neg hx]
    refine ⟨fun h => ?_, fun h => ?_⟩
    · cases h
      exact .var (Bool.not_eq_true _ ▸ hx)
    · rcases h with _ | _ | hx'
      · rfl
      · exact absurd hx' hx

theorem matchAll?_cons_eq_some_iff :
    matchAll? (p :: ps) (v :: vs) = .ok (some env) ↔ ∃ env₁ env₂, p.match? v = .ok (some env₁) ∧
      matchAll? ps vs = .ok (some env₂) ∧ env = Fields.merge env₁ env₂ := by
  rw [matchAll?, bind_eq_ok_iff]
  constructor
  · rintro ⟨_ | env₁, hp, h⟩
    · cases h
    obtain ⟨_ | env₂, hps, h⟩ := bind_eq_ok_iff.1 h
    · cases h
    cases h
    exact ⟨env₁, env₂, hp, hps, rfl⟩
  · rintro ⟨env₁, env₂, hp, hps, rfl⟩
    exact ⟨some env₁, hp, bind_eq_ok_iff.2 ⟨some env₂, hps, rfl⟩⟩

/-- Only as many patterns as values are matched at all. -/
theorem matchItems_eq_some_iff
    (h : ps.length = vs.length → (matchAll? ps vs = .ok (some env) ↔ MatchesAll ps vs env)) :
    (if ps.length = vs.length then matchAll? ps vs else .ok none) = .ok (some env) ↔ MatchesAll ps vs env := by
  by_cases hlen : ps.length = vs.length
  · rw [if_pos hlen]
    exact h hlen
  · rw [if_neg hlen]
    exact iff_of_false (fun h => nomatch h) fun hs => hlen hs.length_eq

end

mutual

theorem match?_eq_some_iff {p : Node} {v : Value} {env : Env} :
    p.match? v = .ok (some env) ↔ Matches p v env := by
  cases p with
  | wildcard =>
    rw [match?]
    refine ⟨fun h => ?_, fun h => ?_⟩
    · cases h
      exact .wildcard
    · cases h
      rfl
  | var x => exact match?_var_eq_some_iff
  | call c ps =>
    cases v with
    | ctor c' vs =>
      rw [match?]
      by_cases hc : c' = c
      · subst hc
        simp only [true_and]
        rw [matchItems_eq_some_iff matchAll?_eq_some_iff]
        exact ⟨.call, fun | .call h => h⟩
      · rw [if_neg fun h => hc h.1]
        exact iff_of_false (fun h => nomatch h) fun | .call _ => hc rfl
    | _ => exact iff_of_false (fun h => nomatch h) fun h => nomatch h
  | list ps =>
    cases v with
    | list vs =>
      rw [match?, matchItems_eq_some_iff matchAll?_eq_some_iff]
      exact ⟨.list, fun | .list h => h⟩
    | _ => exact iff_of_false (fun h => nomatch h) fun h => nomatch h
  | tuple ps =>
    cases v with
    | tuple vs =>
      rw [match?, matchItems_eq_some_iff matchAll?_eq_some_iff]
      exact ⟨.tuple, fun | .tuple h => h⟩
    | _ => exact iff_of_false (fun h => nomatch h) fun h => nomatch h
  | _ => exact iff_of_false (fun h => nomatch h) fun h => nomatch h
termination_by structural p

theorem matchAll?_eq_some_iff {ps : List Node} {vs : List Value} {env : Env} (hlen : ps.length = vs.length) :
    matchAll? ps vs = .ok (some env) ↔ MatchesAll ps vs env := by
  match ps, vs with
  | [], [] =>
    refine ⟨fun h => ?_, fun h => ?_⟩
    · cases h
      exact .nil
    · cases h
      rfl
  | p :: ps, v :: vs =>
    rw [matchAll?_cons_eq_some_iff]
    constructor
    · rintro ⟨env₁, env₂, hp, hps, rfl⟩
      exact .cons (match?_eq_some_iff.1 hp) ((matchAll?_eq_some_iff (Nat.succ.inj hlen)).1 hps)
    · rintro (_ | ⟨hp, hps⟩)
      exact ⟨_, _, match?_eq_some_iff.2 hp, (matchAll?_eq_some_iff (Nat.succ.inj hlen)).2 hps, rfl⟩
termination_by structural ps

end

mutual

theorem Matches.binds {p : Node} {v : Value} {env : Env} (h : Matches p v env) : env.Binds p.boundNames := by
  cases h with
  | wildcard => exact .nil
  | var hx =>
    rw [boundNames, if_neg (Bool.not_eq_true _ ▸ hx)]
    exact .single _ v
  | constant hc =>
    rw [boundNames, if_pos hc]
    exact .nil
  | call hs => exact hs.binds
  | list hs => exact hs.binds
  | tuple hs => exact hs.binds
termination_by structural p

theorem MatchesAll.binds {ps : List Node} {vs : List Value} {env : Env} (h : MatchesAll ps vs env) :
    env.Binds (boundNamesAll ps) := by
  cases h with
  | nil => exact .nil
  | cons h hs => exact h.binds.merge hs.binds
termination_by structural ps

end

/-- A pattern of variables and of constructors, lists and tuples around them. Such a pattern is also an
expression. -/
inductive IsTerm : Node → Prop
  | var {x : String} : IsTerm (.var x)
  | call {c : String} {ps : List Node} (hc : Text.startsUppercase c = true) (hps : ∀ p ∈ ps, IsTerm p) :
      IsTerm (.call c ps)
  | list {ps : List Node} (hps : ∀ p ∈ ps, IsTerm p) : IsTerm (.list ps)
  | tuple {ps : List Node} (hps : ∀ p ∈ ps, IsTerm p) : IsTerm (.tuple ps)

/-! ### Matching and evaluation -/

mutual

theorem Matches.eval_eq {p : Node} {v : Value} {bindings : Env} (h : Matches p v bindings) (hp : p.IsTerm)
    (hnd : p.boundNames.Nodup) {env : Env} (henv : ∀ x ∈ p.boundNames, env.get? x = bindings.get? x) :
    p.eval env = .ok v := by
  cases h with
  | wildcard => cases hp
  | @var x _ hx =>
    have hx' : ¬Text.startsUppercase x = true := Bool.not_eq_true _ ▸ hx
    have hget : env.get? x = some v := by
      rw [henv x (by simp [boundNames, hx'])]
      simp [Fields.get?_cons]
    rw [eval, if_neg hx', Env.lookup, hget]
    rfl
  | constant hc => rw [eval, if_pos hc]
  | call hs =>
    rcases hp with _ | ⟨hc, hps⟩
    rw [eval, hs.evalAll_eq hps hnd henv]
    exact if_pos hc
  | list hs =>
    rcases hp with _ | _ | hps
    rw [eval, hs.evalAll_eq hps hnd henv]
    rfl
  | tuple hs =>
    rcases hp with _ | _ | _ | hps
    rw [eval, hs.evalAll_eq hps hnd henv]
    rfl
termination_by structural p

theorem MatchesAll.evalAll_eq {ps : List Node} {vs : List Value} {bindings : Env}
    (h : MatchesAll ps vs bindings) (hps : ∀ p ∈ ps, p.IsTerm) (hnd : (boundNamesAll ps).Nodup) {env : Env}
    (henv : ∀ x ∈ boundNamesAll ps, env.get? x = bindings.get? x) : evalAll env ps = .ok vs := by
  cases h with
  | nil => rfl
  | @cons p ps v vs env₁ env₂ h hs =>
    obtain ⟨hp, hps⟩ := List.forall_mem_cons.1 hps
    obtain ⟨hndp, hndps, hdisjoint⟩ := List.nodup_append'.1 hnd
    -- no variable of the first pattern is bound again by the others
    have henv₁ : ∀ x ∈ p.boundNames, env.get? x = env₁.get? x := by
      intro x hx
      rw [henv x (List.mem_append_left _ hx), Fields.get?_merge hs.binds.nodup,
        hs.binds.get?_eq_none (hdisjoint hx), Option.none_or]
    have henv₂ : ∀ x ∈ boundNamesAll ps, env.get? x = env₂.get? x := by
      intro x hx
      obtain ⟨w, hw⟩ := hs.binds.exists_get? hx
      rw [henv x (List.mem_append_right _ hx), Fields.get?_merge hs.binds.nodup, hw, Option.some_or]
    rw [evalAll, h.eval_eq hp hndp henv₁, hs.evalAll_eq hps hndps henv₂]
    rfl
termination_by structural ps

end

section

variable {env : Env}

theorem evalAll_cons_eq_ok_iff {n : Node} {ns : List Node} {vs : List Value} :
    evalAll env (n :: ns) = .ok vs ↔
      ∃ w ws, n.eval env = .ok w ∧ evalAll env ns = .ok ws ∧ vs = w :: ws := by
  rw [evalAll, bind_eq_ok_iff]
  constructor
  · rintro ⟨w, hw, h⟩
    obtain ⟨ws, hws, h⟩ := bind_eq_ok_iff.1 h
    cases h
    exact ⟨w, ws, hw, hws, rfl⟩
  · rintro ⟨w, ws, hw, hws, rfl⟩
    exact ⟨w, hw, bind_eq_ok_iff.2 ⟨ws, hws, rfl⟩⟩

/-- A variable that stands in several patterns has one value, so it does not matter which of them binds it. -/
theorem matchesAll_of_evalAll {ps : List Node} {vs : List Value}
    (h : ∀ p ∈ ps, ∀ v, p.eval env = .ok v →
      ∃ bindings, Matches p v bindings ∧ ∀ x ∈ p.boundNames, bindings.get? x = env.get? x)
    (hvs : evalAll env ps = .ok vs) :
    ∃ bindings, MatchesAll ps vs bindings ∧ ∀ x ∈ boundNamesAll ps, bindings.get? x = env.get? x := by
  induction ps generalizing vs with
  | nil =>
    cases hvs
    exact ⟨[], .nil, fun x hx => nomatch hx⟩
  | cons p ps ih =>
    obtain ⟨w, ws, hw, hws, rfl⟩ := evalAll_cons_eq_ok_iff.1 hvs
    obtain ⟨hp, hps⟩ := List.forall_mem_cons.1 h
    obtain ⟨env₁, hmatch, henv₁⟩ := hp w hw
    obtain ⟨env₂, hmatches, henv₂⟩ := ih hps hws
    refine ⟨_, .cons hmatch hmatches, fun x hx => ?_⟩
    rw [Fields.get?_merge hmatches.binds.nodup]
    by_cases hmem : x ∈ boundNamesAll ps
    · obtain ⟨u, hu⟩ := hmatches.binds.exists_get? hmem
      rw [← henv₂ x hmem, hu, Option.some_or]
    · have hfirst := (List.mem_append.1 hx).resolve_right hmem
      rw [hmatches.binds.get?_eq_none hmem, Option.none_or, henv₁ x hfirst]

theorem IsTerm.matches_of_eval {p : Node} (hp : p.IsTerm) {v : Value} (h : p.eval env = .ok v) :
    ∃ bindings, Matches p v bindings ∧ ∀ x ∈ p.boundNames, bindings.get? x = env.get? x := by
  induction hp generalizing v with
  | @var x =>
    rw [eval] at h
    by_cases hx : Text.startsUppercase x
    · rw [if_pos hx] at h
      cases h
      exact ⟨[], .constant hx, by simp [boundNames, hx]⟩
    · rw [if_neg hx, Env.lookup] at h
      cases hget : env.get? x with
      | none =>
        rw [hget] at h
        cases h
      | some w =>
        rw [hget] at h
        cases h
        exact ⟨[(x, v)], .var (by simpa using hx), by simp [boundNames, hx, hget, Fields.get?_cons]⟩
  | call hc _ ih =>
    obtain ⟨vs, hvs, h⟩ := bind_eq_ok_iff.1 h
    rw [if_pos hc] at h
    cases h
    obtain ⟨bindings, hmatches, hget⟩ := matchesAll_of_evalAll (fun p hp v => ih p hp) hvs
    exact ⟨bindings, .call hmatches, hget⟩
  | list _ ih =>
    obtain ⟨vs, hvs, h⟩ := bind_eq_ok_iff.1 h
    cases h
    obtain ⟨bindings, hmatches, hget⟩ := matchesAll_of_evalAll (fun p hp v => ih p hp) hvs
    exact ⟨bindings, .list hmatches, hget⟩
  | tuple _ ih =>
    obtain ⟨vs, hvs, h⟩ := bind_eq_ok_iff.1 h
    cases h
    obtain ⟨bindings, hmatches, hget⟩ := matchesAll_of_evalAll (fun p hp v => ih p hp) hvs
    exact ⟨bindings, .tuple hmatches, hget⟩

end

/-- Matching undoes evaluation. A value of a pattern in some environment is matched by it, and the bindings are
those of the environment for the variables of the pattern. If no variable stands twice in the pattern, it has
every value that it matches as its value under the bindings, so it matches its values and no others. -/
theorem match_eval_inverse {p : Node} (hp : p.IsTerm) :
    (p.boundNames.Nodup → ∀ v bindings, p.match? v = .ok (some bindings) → p.eval bindings = .ok v) ∧
      (∀ env v, p.eval env = .ok v → ∃ bindings, p.match? v = .ok (some bindings) ∧ bindings.names.Nodup ∧
        (∀ x, x ∈ bindings.names ↔ x ∈ p.boundNames) ∧
          ∀ x ∈ p.boundNames, ∃ w, bindings.get? x = some w ∧ env.get? x = some w) ∧
      (p.boundNames.Nodup → ∀ v, (∃ bindings, p.match? v = .ok (some bindings)) ↔ ∃ env, p.eval env = .ok v) := by
  have heval (hnd : p.boundNames.Nodup) {v : Value} {bindings : Env}
      (h : p.match? v = .ok (some bindings)) : p.eval bindings = .ok v :=
    (match?_eq_some_iff.1 h).eval_eq hp hnd fun _ _ => rfl
  refine ⟨fun hnd v bindings => heval hnd, fun env v h => ?_, fun hnd v => ⟨?_, ?_⟩⟩
  · obtain ⟨bindings, hmatch, hget⟩ := hp.matches_of_eval h
    refine ⟨bindings, match?_eq_some_iff.2 hmatch, hmatch.binds.nodup, hmatch.binds.mem_names_iff, fun x hx => ?_⟩
    obtain ⟨w, hw⟩ := hmatch.binds.exists_get? hx
    exact ⟨w, hw, hget x hx ▸ hw⟩
  · rintro ⟨bindings, h⟩
    exact ⟨bindings, heval hnd h⟩
  · rintro ⟨env, h⟩
    obtain ⟨bindings, hmatch, -⟩ := hp.matches_of_eval h
    exact ⟨bindings, match?_eq_some_iff.2 hmatch⟩

/-- A nested pattern, matched against a value and evaluated where one more variable is in scope. -/
theorem match_eval_inverse_nested :
    let p : Node := .tuple [.call "Just" [.var "a"], .list [.var "b", .var "Nothing"]]
    let v : Value := .tuple [.just (.int 1), .list [.text "x", .nothing]]
    let env : Env := [("c", .null), ("b", .text "x"), ("a", .int 1)]
    p.IsTerm ∧ p.boundNames.Nodup ∧ p.match? v = .ok (some [("a", .int 1), ("b", .text "x")]) ∧
      p.eval [("a", .int 1), ("b", .text "x")] = .ok v ∧ p.eval env = .ok v ∧
      ∃ bindings, p.match? v = .ok (some bindings) ∧ "c" ∉ bindings.names := by
  intro p v env
  have hp : p.IsTerm := by
    have hjust : (Node.call "Just" [.var "a"]).IsTerm := .call (by decide) (List.forall_mem_singleton.2 .var)
    have hlist : (Node.list [.var "b", .var "Nothing"]).IsTerm :=
      .list (List.forall_mem_cons.2 ⟨.var, List.forall_mem_singleton.2 .var⟩)
    exact .tuple (List.forall_mem_cons.2 ⟨hjust, List.forall_mem_singleton.2 hlist⟩)
  have hnd : p.boundNames.Nodup := by decide
  have hmatch : p.match? v = .ok (some [("a", .int 1), ("b", .text "x")]) := rfl
  have heval : p.eval env = .ok v := rfl
  obtain ⟨hback, hforth, -⟩ := match_eval_inverse hp
  obtain ⟨bindings, hbindings, -, hnames, -⟩ := hforth env v heval
  have hc : "c" ∉ bindings.names := by
    rw [hnames]
    decide
  exact ⟨hp, hnd, hmatch, hback hnd v _ hmatch, heval, bindings, hbindings, hc⟩

/-- A variable that stands twice is bound to what it met last, which need not be the value of both places. -/
example : (list [.var "a", .var "a"]).match? (.list [.int 1, .int 2]) = .ok (some [("a", .int 2)]) := rfl

end Node

end TypedAssets.Code
