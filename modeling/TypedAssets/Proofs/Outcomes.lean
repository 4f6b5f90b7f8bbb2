/-!
# Steps that may fail

What it takes for steps one after another, or one for each item of a list, to succeed.
-/

namespace TypedAssets

variable {ε α β : Type} {xs : List α} {f : α → Except ε β}

theorem not_exists_ok {e : ε} : ¬ ∃ a : α, Except.error e = .ok a :=
  fun ⟨_, h⟩ => nomatch h

theorem bind_eq_ok_iff {x : Except ε α} {b : β} : (x >>= f) = .ok b ↔ ∃ a, x = .ok a ∧ f a = .ok b := by
  cases x with
  | error e => simp [bind, Except.bind]
  | ok a => simp [bind, Except.bind]

theorem map_eq_ok_iff {x : Except ε α} {g : α → β} {b : β} :
    (g <$> x) = .ok b ↔ ∃ a, x = .ok a ∧ g a = b := by
  cases x with
  | error e => simp [Functor.map, Except.map]
  | ok a => simp [Functor.map, Except.map]

theorem bind_ok_iff {x : Except ε α} {p : Prop} (hf : ∀ a, (∃ b, f a = .ok b) ↔ p) :
    (∃ b, (x >>= f) = .ok b) ↔ (∃ a, x = .ok a) ∧ p := by
  constructor
  · rintro ⟨b, hb⟩
    obtain ⟨a, ha, hb⟩ := bind_eq_ok_iff.1 hb
    exact ⟨⟨a, ha⟩, (hf a).1 ⟨b, hb⟩⟩
  · rintro ⟨⟨a, ha⟩, hp⟩
    obtain ⟨b, hb⟩ := (hf a).2 hp
    exact ⟨b, bind_eq_ok_iff.2 ⟨a, ha, hb⟩⟩

theorem bind_pure_ok_iff {x : Except ε α} {g : α → β} :
    (∃ b, (x >>= fun a => pure (g a)) = .ok b) ↔ ∃ a, x = .ok a :=
  (bind_ok_iff fun _ => iff_true_intro ⟨_, rfl⟩).trans (and_iff_left trivial)

theorem bind_pure_eq_error_iff {x : Except ε α} {g : α → β} {e : ε} :
    (x >>= fun a => pure (g a)) = .error e ↔ x = .error e := by
  cases x with
  | error e' => simp [bind, Except.bind]
  | ok a => exact iff_of_false (fun h => nomatch h) fun h => nomatch h

theorem map_ok_iff {x : Except ε α} {g : α → β} : (∃ b, (g <$> x) = .ok b) ↔ ∃ a, x = .ok a := by
  cases x with
  | error e => exact iff_of_false not_exists_ok not_exists_ok
  | ok a => exact iff_of_true ⟨_, rfl⟩ ⟨_, rfl⟩

theorem mapM_ok_iff : (∃ ys, xs.mapM f = .ok ys) ↔ ∀ x ∈ xs, ∃ y, f x = .ok y := by
  induction xs with
  | nil => exact iff_of_true ⟨[], rfl⟩ fun x hx => absurd hx List.not_mem_nil
  | cons x xs ih =>
    rw [List.mapM_cons, List.forall_mem_cons, ← ih]
    exact bind_ok_iff fun _ => bind_pure_ok_iff

/-- The steps fail with the error of the first that does. -/
theorem mapM_eq_error_iff {e : ε} : xs.mapM f = .error e ↔
    ∃ done x rest, xs = done ++ x :: rest ∧ (∀ d ∈ done, ∃ y, f d = .ok y) ∧ f x = .error e := by
  induction xs with
  | nil => simp [pure, Except.pure]
  | cons x xs ih =>
    rw [List.mapM_cons]
    constructor
    · intro h
      cases hx : f x with
      | error e' =>
        rw [hx] at h
        cases h
        exact ⟨[], x, xs, rfl, fun d hd => absurd hd List.not_mem_nil, hx⟩
      | ok y =>
        have hxs : xs.mapM f = .error e := by
          rw [hx] at h
          cases hxs : xs.mapM f with
          | error e' =>
            rw [hxs] at h
            exact h
          | ok ys =>
            rw [hxs] at h
            cases h
        obtain ⟨done, z, rest, rfl, hdone, hz⟩ := ih.1 hxs
        exact ⟨x :: done, z, rest, rfl, List.forall_mem_cons.2 ⟨⟨y, hx⟩, hdone⟩, hz⟩
    · rintro ⟨done, z, rest, hxs, hdone, hz⟩
      cases done with
      | nil =>
        obtain ⟨rfl, rfl⟩ := List.cons.inj hxs
        rw [hz]
        rfl
      | cons d done =>
        obtain ⟨rfl, rfl⟩ := List.cons.inj hxs
        obtain ⟨⟨y, hy⟩, hdone⟩ := List.forall_mem_cons.1 hdone
        rw [hy, ih.2 ⟨done, z, rest, rfl, hdone, hz⟩]
        rfl

theorem mapM_eq_map {g : α → β} (h : ∀ x ∈ xs, f x = .ok (g x)) : xs.mapM f = .ok (xs.map g) := by
  induction xs with
  | nil => rfl
  | cons x xs ih =>
    rw [List.mapM_cons, h x List.mem_cons_self, ih fun x hx => h x (List.mem_cons_of_mem _ hx)]
    rfl

theorem length_of_mapM_ok {ys : List β} (h : xs.mapM f = .ok ys) : ys.length = xs.length := by
  induction xs generalizing ys with
  | nil =>
    cases h
    rfl
  | cons x xs ih =>
    rw [List.mapM_cons] at h
    obtain ⟨y, -, h⟩ := bind_eq_ok_iff.1 h
    obtain ⟨ys, hys, h⟩ := bind_eq_ok_iff.1 h
    cases h
    rw [List.length_cons, List.length_cons, ih hys]

/-- A step that succeeds whenever another does, with a result that is related to the other's. -/
def Follows {γ : Type} (R : α → γ → Prop) (x : Except ε α) (y : Except ε γ) : Prop :=
  ∀ a, x = .ok a → ∃ c, y = .ok c ∧ R a c

namespace Follows

section

variable {γ δ : Type} {R : α → γ → Prop} {S : β → δ → Prop} {x x' : Except ε α} {y y' : Except ε γ}

theorem ok {a : α} {c : γ} (h : R a c) : Follows (ε := ε) R (.ok a) (.ok c) := by
  rintro _ ⟨⟩
  exact ⟨c, rfl, h⟩

theorem bind {g : γ → Except ε δ} (h : Follows R x y) (hfg : ∀ a c, R a c → Follows S (f a) (g c)) :
    Follows S (x >>= f) (y >>= g) := by
  intro b hb
  obtain ⟨a, ha, hb⟩ := bind_eq_ok_iff.1 hb
  obtain ⟨c, hc, hac⟩ := h a ha
  obtain ⟨d, hd, hbd⟩ := hfg a c hac b hb
  exact ⟨d, bind_eq_ok_iff.2 ⟨c, hc, hd⟩, hbd⟩

theorem map {g : α → β} {g' : γ → δ} (h : Follows R x y) (hg : ∀ a c, R a c → S (g a) (g' c)) :
    Follows S (g <$> x) (g' <$> y) := by
  intro b hb
  obtain ⟨a, ha, rfl⟩ := map_eq_ok_iff.1 hb
  obtain ⟨c, hc, hac⟩ := h a ha
  exact ⟨g' c, map_eq_ok_iff.2 ⟨c, hc, rfl⟩, hg a c hac⟩

theorem of_map {g : α → β} {g' : γ → δ} (h : Follows S (g <$> x) (g' <$> y)) :
    Follows (fun a c => S (g a) (g' c)) x y := by
  intro a ha
  obtain ⟨d, hd, had⟩ := h (g a) (map_eq_ok_iff.2 ⟨a, ha, rfl⟩)
  obtain ⟨c, hc, rfl⟩ := map_eq_ok_iff.1 hd
  exact ⟨c, hc, had⟩

theorem ite {p : Prop} [Decidable p] (h : p → Follows R x y) (h' : ¬ p → Follows R x' y') :
    Follows R (if p then x else x') (if p then y else y') := by
  by_cases hp : p
  · rw [if_pos hp, if_pos hp]
    exact h hp
  · rw [if_neg hp, if_neg hp]
    exact h' hp

end

end Follows

end TypedAssets
