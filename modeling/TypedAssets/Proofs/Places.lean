import Mathlib.Data.List.Pairwise
import TypedAssets.Schema.Manifest

/-!
# Problems in the order of their places

Places are compared step by step, keys as texts and indices as numbers, and a value comes before what is inside
it; an index and a key cannot be compared. A shape whose properties are in alphabetical order finds the problems
of a value in the order of their places (`Shape.Alphabetical.inOrder_check`). So sorting them by place never
fails and changes nothing (`inPlaceOrder?_of_inOrder`), and the problems of a list of assets are those of its
parts one after another, the indices of the later parts moved (`problems_append`).
-/

namespace TypedAssets.Schema

/-- Whether a step comes before another one; an index and a key have no order. -/
def Step.before? : Step → Step → Option Bool
  | .key x, .key y => some (x < y)
  | .index i, .index j => some (i < j)
  | _, _ => none

/-- Whether a place comes no later than another one, as the first steps that differ tell. -/
def notAfter? : List Step → List Step → Option Bool
  | [], _ => some true
  | _ :: _, [] => some false
  | s :: p, t :: q => if s = t then notAfter? p q else s.before? t

/-- Problems sorted by their places, those of one place as they come. There is no such order if two of the
places cannot be compared. -/
def inPlaceOrder? (ps : List Problem) : Option (List Problem) :=
  if ∀ p ∈ ps, ∀ q ∈ ps, (notAfter? p.place q.place).isSome then
    some (ps.mergeSort fun p q => notAfter? p.place q.place = some true)
  else none

theorem notAfter?_cons_self (s : Step) (p q : List Step) : notAfter? (s :: p) (s :: q) = notAfter? p q := by
  simp [notAfter?]

theorem notAfter?_self (p : List Step) : notAfter? p p = some true := by
  induction p with
  | nil => rfl
  | cons s p ih => rw [notAfter?_cons_self, ih]

theorem notAfter?_key {x y : String} (h : x < y) (p q : List Step) :
    notAfter? (.key x :: p) (.key y :: q) = some true := by
  have hne : x ≠ y := fun he => String.lt_irrefl y (he ▸ h)
  simp [notAfter?, Step.before?, hne, h]

theorem notAfter?_index {i j : Nat} (h : i < j) (p q : List Step) :
    notAfter? (.index i :: p) (.index j :: q) = some true := by
  have hne : i ≠ j := by omega
  simp [notAfter?, Step.before?, hne, h]

theorem isSome_notAfter?_comm (p q : List Step) : (notAfter? p q).isSome → (notAfter? q p).isSome := by
  induction p generalizing q with
  | nil => cases q <;> simp [notAfter?]
  | cons s p ih =>
    cases q with
    | nil => simp [notAfter?]
    | cons t q =>
      by_cases hst : s = t
      · subst hst
        rw [notAfter?_cons_self, notAfter?_cons_self]
        exact ih q
      · rw [notAfter?, notAfter?, if_neg hst, if_neg (Ne.symm hst)]
        cases s <;> cases t <;> simp [Step.before?]

/-- Problems no two of which stand in the wrong order of places. -/
def InOrder (ps : List Problem) : Prop := ps.Pairwise fun p q => notAfter? p.place q.place = some true

section

variable {ps qs : List Problem}

theorem inPlaceOrder?_of_inOrder (h : InOrder ps) : inPlaceOrder? ps = some ps := by
  have hsome : ps.Pairwise fun p q => (notAfter? p.place q.place).isSome :=
    h.imp fun h => Option.isSome_of_eq_some h
  have hself : ∀ p ∈ ps, (notAfter? p.place p.place).isSome := fun p _ => by simp [notAfter?_self]
  have hall := hsome.forall_of_forall_of_flip hself (hsome.imp fun h => isSome_notAfter?_comm _ _ h)
  rw [inPlaceOrder?, if_pos hall, List.mergeSort_of_pairwise]
  exact h.imp fun h => decide_eq_true h

theorem inOrder_of_here (h : ∀ p ∈ ps, p.place = []) : InOrder ps := by
  refine List.pairwise_of_forall_mem_list fun p hp q _ => ?_
  rw [h p hp]
  rfl

theorem InOrder.under (s : Step) (h : InOrder ps) : InOrder (ps.map (Problem.under s)) := by
  refine List.pairwise_map.2 (h.imp fun {p q} h => ?_)
  rwa [Problem.under, Problem.under, notAfter?_cons_self]

/-- The problems of a value itself come before those inside it. -/
theorem InOrder.here_append (hps : ∀ p ∈ ps, p.place = []) (hqs : InOrder qs) : InOrder (ps ++ qs) := by
  refine List.pairwise_append.2 ⟨inOrder_of_here hps, hqs, fun p hp q _ => ?_⟩
  rw [hps p hp]
  rfl

end

theorem place_of_mem_checkText {nonempty : Bool} {pattern : Pattern} {s : String} :
    ∀ p ∈ checkText nonempty pattern s, p.place = [] := by
  intro p hp
  rw [checkText, List.mem_append] at hp
  rcases hp with hp | hp
  all_goals
    split at hp
    all_goals simp_all [here]

theorem place_of_mem_checkRequired {required : List String} {ms : List (String × Json)} :
    ∀ p ∈ checkRequired required ms, p.place = [] := by
  intro p hp
  obtain ⟨x, -, rfl⟩ := List.mem_map.1 hp
  rfl

theorem place_of_mem_checkNames {known : List String} {ms : List (String × Json)} :
    ∀ p ∈ checkNames known ms, p.place = [] := by
  intro p hp
  unfold checkNames at hp
  split at hp
  · cases hp
  · rw [List.mem_singleton.1 hp]
    rfl

namespace Shape

/-- A shape that takes the properties of every object in alphabetical order. -/
inductive Alphabetical : Shape → Prop
  | choice {choices : List String} : Alphabetical (.choice choices)
  | text {nonempty : Bool} {pattern : Pattern} : Alphabetical (.text nonempty pattern)
  | array {items : Shape} (h : Alphabetical items) : Alphabetical (.array items)
  | object {required : List String} {properties : List (String × Shape)}
      (hnames : (properties.map Prod.fst).Pairwise (· < ·)) (h : ∀ p ∈ properties, Alphabetical p.2) :
      Alphabetical (.object required properties)

theorem exists_place_of_mem_checkProperties {properties : List (String × Shape)} {ms : List (String × Json)} :
    ∀ p ∈ checkProperties properties ms, ∃ x ∈ properties.map Prod.fst, ∃ place, p.place = .key x :: place := by
  induction properties with
  | nil => simp [checkProperties]
  | cons property properties ih =>
    intro p hp
    rw [checkProperties, List.mem_append] at hp
    rcases hp with hp | hp
    · cases hv : ms.lookup property.1 with
      | none => simp [hv] at hp
      | some v =>
        rw [hv, Option.elim_some] at hp
        obtain ⟨q, -, rfl⟩ := List.mem_map.1 hp
        exact ⟨property.1, List.mem_cons_self, q.place, rfl⟩
    · obtain ⟨x, hx, hplace⟩ := ih p hp
      exact ⟨x, List.mem_cons_of_mem _ hx, hplace⟩

theorem inOrder_checkProperties {properties : List (String × Shape)} {ms : List (String × Json)}
    (hnames : (properties.map Prod.fst).Pairwise (· < ·))
    (h : ∀ p ∈ properties, ∀ v, InOrder (p.2.check v)) : InOrder (checkProperties properties ms) := by
  induction properties with
  | nil => exact .nil
  | cons property properties ih =>
    obtain ⟨hfirst, hrest⟩ := List.pairwise_cons.1 hnames
    obtain ⟨hp, hps⟩ := List.forall_mem_cons.1 h
    rw [checkProperties]
    refine List.pairwise_append.2 ⟨?_, ih hrest hps, fun p hp q hq => ?_⟩
    · cases ms.lookup property.1 with
      | none => exact .nil
      | some v => exact (hp v).under (.key property.1)
    · obtain ⟨y, hy, place, hplace⟩ := exists_place_of_mem_checkProperties q hq
      cases hv : ms.lookup property.1 with
      | none => simp [hv] at hp
      | some v =>
        rw [hv, Option.elim_some] at hp
        obtain ⟨r, -, rfl⟩ := List.mem_map.1 hp
        rw [hplace]
        exact notAfter?_key (hfirst y hy) _ _

theorem inOrder_checkItems {items : Shape} (h : ∀ v, InOrder (items.check v)) (vs : List Json) :
    InOrder (vs.mapIdx fun i v => (items.check v).map (Problem.under (.index i))).flatten := by
  refine List.pairwise_flatten.2 ⟨fun ps hps => ?_, List.pairwise_iff_getElem.2 fun i j hi hj hij => ?_⟩
  · obtain ⟨i, hi, rfl⟩ := List.mem_mapIdx.1 hps
    exact (h vs[i]).under (.index i)
  · intro p hp q hq
    rw [List.getElem_mapIdx] at hp hq
    obtain ⟨p', -, rfl⟩ := List.mem_map.1 hp
    obtain ⟨q', -, rfl⟩ := List.mem_map.1 hq
    exact notAfter?_index hij _ _

theorem Alphabetical.inOrder_check {shape : Shape} (h : shape.Alphabetical) : ∀ v, InOrder (shape.check v) := by
  induction h with
  | choice =>
    intro v
    refine inOrder_of_here fun p hp => ?_
    unfold check at hp
    repeat' split at hp
    all_goals simp_all [here]
  | text =>
    intro v
    refine inOrder_of_here fun p hp => ?_
    unfold check at hp
    split at hp
    · exact place_of_mem_checkText p hp
    · rw [List.mem_singleton.1 hp]
      rfl
  | array _ ih =>
    intro v
    unfold check
    split
    · exact inOrder_checkItems ih _
    · exact inOrder_of_here (by simp [here])
  | object hnames _ ih =>
    intro v
    unfold check
    split
    · refine .here_append (fun p hp => ?_) (inOrder_checkProperties hnames ih)
      rcases List.mem_append.1 hp with hp | hp
      · exact place_of_mem_checkRequired p hp
      · exact place_of_mem_checkNames p hp
    · exact inOrder_of_here (by simp [here])

end Shape

theorem alphabetical_manifest : manifest.Alphabetical := by
  have hasset : asset.Alphabetical := by
    refine .object (by decide) fun p hp => ?_
    simp only [List.mem_cons, List.not_mem_nil, or_false] at hp
    rcases hp with rfl | rfl | rfl
    · exact .choice
    · exact .text
    · exact .text
  refine .object (by decide) fun p hp => ?_
  rw [List.mem_singleton.1 hp]
  exact .array hasset

/-- The first index on the way to a place, increased. -/
def moved (n : Nat) : List Step → List Step
  | [] => []
  | .index i :: place => .index (n + i) :: place
  | .key x :: place => .key x :: moved n place

/-- A problem whose place has another first index. -/
def Problem.moved (n : Nat) (p : Problem) : Problem := { p with place := Schema.moved n p.place }

/-- The document that lists some values as assets. -/
def listing (vs : List Json) : Json := .object [("assets", .array vs)]

theorem check_array_append (items : Shape) (xs ys : List Json) :
    (Shape.array items).check (.array (xs ++ ys)) =
      (Shape.array items).check (.array xs) ++
        ((Shape.array items).check (.array ys)).map (Problem.moved xs.length) := by
  have hmoved (i : Nat) (v : Json) : (items.check v).map (Problem.under (.index (i + xs.length))) =
      ((items.check v).map (Problem.under (.index i))).map (Problem.moved xs.length) := by
    rw [List.map_map]
    refine List.map_congr_left fun p _ => ?_
    simp [Problem.under, Problem.moved, Schema.moved, Nat.add_comm]
  simp only [Shape.check, List.mapIdx_append, List.flatten_append, hmoved]
  simp only [List.mapIdx_eq_zipIdx_map, List.map_flatten, List.map_map, Function.comp_def]

theorem problems_listing (vs : List Json) :
    problems (listing vs) = ((Shape.array asset).check (.array vs)).map (Problem.under (.key "assets")) := by
  simp [problems, manifest, listing, Shape.check, Shape.checkProperties, checkRequired, checkNames]

/-- Every problem of a list of assets has the index of an asset. -/
theorem exists_index_of_mem_problems (vs : List Json) :
    ∀ p ∈ problems (listing vs), ∃ i < vs.length, ∃ place, p.place = .key "assets" :: .index i :: place := by
  intro p hp
  rw [problems_listing] at hp
  obtain ⟨q, hq, rfl⟩ := List.mem_map.1 hp
  rw [Shape.check] at hq
  obtain ⟨qs, hqs, hq⟩ := List.mem_flatten.1 hq
  obtain ⟨i, hi, rfl⟩ := List.mem_mapIdx.1 hqs
  obtain ⟨r, -, rfl⟩ := List.mem_map.1 hq
  exact ⟨i, hi, r.place, rfl⟩

/-- The problems of a list of assets that is put together from two are those of the first and then those of the
second with their indices increased. They are reported as they are found: sorting them by place is possible and
leaves them as they are. -/
theorem problems_append (xs ys : List Json) :
    problems (listing (xs ++ ys)) =
        problems (listing xs) ++ (problems (listing ys)).map (Problem.moved xs.length) ∧
      (∀ d, inPlaceOrder? (problems d) = some (problems d)) ∧
      ∀ vs, ∀ p ∈ problems (listing vs), ∃ i < vs.length, ∃ place,
        p.place = .key "assets" :: .index i :: place := by
  refine ⟨?_, fun d => inPlaceOrder?_of_inOrder (alphabetical_manifest.inOrder_check d),
    exists_index_of_mem_problems⟩
  rw [problems_listing, problems_listing, problems_listing, check_array_append, List.map_append, List.map_map,
    List.map_map]
  rfl

/-- The problems of a text and of a number among the assets. -/
example : (problems (listing [.string "a", .float "1.5"])).map Problem.message =
    ["Validation error at assets -> 0: 'a' is not of type 'object'",
      "Validation error at assets -> 1: 1.5 is not of type 'object'"] := by
  decide +kernel

end TypedAssets.Schema
