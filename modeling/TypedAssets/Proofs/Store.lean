import TypedAssets.Proofs.Functions
import TypedAssets.Proofs.Validity

/-!
# Sessions as a store with a snapshot

`Store` is what a game may take a generated module for: a slot for each asset, absent or filled, which
the first `initial` brings into being, and a snapshot of the slots taken by the last successful
completion. `run_eq_store_run` says that for a valid manifest a session answers every sequence of
requests as the store does, refusals included. The relation that carries it is `Represents`: the builder
and the pack of the session are the slots and the snapshot, written as records.
-/

namespace TypedAssets.Pack

open Code

/-- What a game asks of a pack. -/
inductive Request where
  | initial
  | insert (kind : Kind) (name : String) (value : Value)
  | tryBuild
  | get (kind : Kind) (name : String)

/-- A request as a step of a session. -/
def Request.step : Request → Step
  | .initial => .initial
  | .insert k name v => .insert k name v
  | .tryBuild => .tryBuild
  | .get k name => .get k name

/-- What each asset's slot holds, if anything. -/
abbrev Slots := Asset → Option Value

namespace Slots

variable (m : Manifest)

/-- The builder that has these slots. -/
def builder (σ : Slots) : Fields Value := m.assets.map fun a => (a.field, (σ a).elim .nothing .just)

/-- The record of what the filled slots hold. -/
def pack (σ : Slots) : Fields Value := m.assets.filterMap fun a => (σ a).map fun v => (a.field, v)

def Full (σ : Slots) : Prop := ∀ a ∈ m.assets, (σ a).isSome

instance (σ : Slots) : Decidable (σ.Full m) :=
  inferInstanceAs (Decidable (∀ a ∈ m.assets, (σ a).isSome))

end Slots

/-- Slots, undefined at first, and the snapshot of the last completion. -/
structure Store where
  slots : Option Slots := none
  snapshot : Option Slots := none

namespace Store

/-- The answer to a request, and the store after it. Before there are slots a completion can only
succeed if there is nothing to wait for. -/
def step (m : Manifest) (t : Store) : Request → Except EvalError Value × Store
  | .initial =>
    let σ : Slots := fun _ => none
    (.ok (.record (σ.builder m)), { t with slots := some σ })
  | .insert k name v =>
    match m.find? k name, t.slots with
    | none, _ => (.error (.noMatchingBranch (Session.key name)), t)
    | some a, none => (.error (.noSuchField a.field), t)
    | some a, some σ =>
      let σ' : Slots := fun b => if b = a then some v else σ b
      (.ok (.record (σ'.builder m)), { t with slots := some σ' })
  | .tryBuild =>
    match t.slots with
    | none =>
      match slotOrder m with
      | a :: _ => (.error (.missingField a.field), t)
      | [] => (.ok (.just (.record [])), { t with snapshot := some fun _ => none })
    | some σ =>
      if σ.Full m then (.ok (.just (.record (σ.pack m))), { t with snapshot := some σ })
      else (.ok .nothing, t)
  | .get k name =>
    match m.find? k name with
    | none => (.error (.noMatchingBranch (Session.key name)), t)
    | some a => ((t.snapshot.bind (· a)).elim (.error (.missingField a.field)) .ok, t)

/-- The answers to requests made one after another. -/
def run (m : Manifest) (t : Store) : List Request → List (Except EvalError Value)
  | [] => []
  | r :: rs => (t.step m r).1 :: run m (t.step m r).2 rs

end Store

namespace Slots
variable {m : Manifest} {σ : Slots} {a : Asset}

theorem get?_builder (hm : m.Valid) (σ : Slots) (ha : a ∈ m.assets) :
    (σ.builder m).get? a.field = some ((σ a).elim .nothing .just) :=
  Fields.get?_map hm.fields_nodup ha

theorem set_builder (hm : m.Valid) (σ : Slots) (ha : a ∈ m.assets) (v : Value) :
    (σ.builder m).set a.field v.just = builder m fun b => if b = a then some v else σ b := by
  rw [builder, Fields.set_map hm.fields_nodup ha]
  refine List.map_congr_left fun b _ => ?_
  by_cases hb : b = a <;> simp [hb]

theorem builder_congr {τ : Slots} (h : ∀ a ∈ m.assets, σ a = τ a) : σ.builder m = τ.builder m :=
  List.map_congr_left fun a ha => by rw [h a ha]

theorem pack_of_full (h : σ.Full m) :
    σ.pack m = m.assets.map fun a => (a.field, (σ a).getD .null) := by
  rw [pack, ← List.filterMap_eq_map]
  refine List.filterMap_congr fun a ha => ?_
  obtain ⟨v, hv⟩ := Option.isSome_iff_exists.1 (h a ha)
  simp [hv]

theorem get?_pack (hm : m.Valid) (h : σ.Full m) (ha : a ∈ m.assets) :
    (σ.pack m).get? a.field = σ a := by
  obtain ⟨v, hv⟩ := Option.isSome_iff_exists.1 (h a ha)
  rw [pack_of_full h, Fields.get?_map hm.fields_nodup ha, hv]
  rfl

theorem insertion_builder (hm : m.Valid) (σ : Slots) (ha : a ∈ m.assets) (v : Value) :
    (insertion m a.kind).apply [Session.key a.name, v, .record (σ.builder m)] =
      .ok (.record (builder m fun b => if b = a then some v else σ b)) := by
  rw [insertion_apply fun b hb => hm.startsUppercase_name hb, Manifest.find?_of_mem hm.names_nodup ha]
  simp only [get?_builder hm σ ha, Option.isNone_some, set_builder hm σ ha]
  rfl

theorem tryBuild_builder_full (hm : m.Valid) (h : σ.Full m) :
    (tryBuild m).apply [.record (σ.builder m)] = .ok (.just (.record (σ.pack m))) := by
  rw [pack_of_full h]
  refine tryBuild_apply_complete hm.fields_nodup fun a ha => ?_
  obtain ⟨v, hv⟩ := Option.isSome_iff_exists.1 (h a ha)
  rw [get?_builder hm σ ha, hv]
  rfl

theorem tryBuild_builder_of_empty (hm : m.Valid) (ha : a ∈ m.assets) (h : σ a = none) :
    (tryBuild m).apply [.record (σ.builder m)] = .ok .nothing := by
  refine tryBuild_apply_incomplete hm.fields_nodup (fun b hb => get?_builder hm σ hb) ha ?_
  rw [h]
  rfl

theorem lookup_pack (hm : m.Valid) (hfull : σ.Full m) (ha : a ∈ m.assets) {v : Value} (h : σ a = some v) :
    (lookup m a.kind).apply (Session.lookupArgs (.record (σ.pack m)) a.kind a.name) = .ok v := by
  rw [lookup_apply fun b hb => hm.startsUppercase_name hb, Manifest.find?_of_mem hm.names_nodup ha]
  simp only [get?_pack hm hfull ha, h, Option.elim_some]

end Slots

/-! ### The simulation -/

/-- The session's builder and pack are the store's slots and snapshot, or empty where these are not
there yet. Only full slots are ever a snapshot. -/
structure Represents (m : Manifest) (s : Session) (t : Store) : Prop where
  builder : s.builder = .record (t.slots.elim [] (Slots.builder m))
  pack : s.pack = .record (t.snapshot.elim [] (Slots.pack m))
  full : ∀ σ ∈ t.snapshot, σ.Full m

namespace Represents
variable {m : Manifest} {s : Session} {t : Store}

theorem start (m : Manifest) : Represents m {} {} :=
  ⟨rfl, rfl, fun _ h => nomatch h⟩

/-- A session whose function gives the store's answer and that remembers what the store does. -/
def Agrees (m : Manifest) (s : Session) (t : Store) (r : Request) : Prop :=
  (s.step m.packModule r.step).1 = (t.step m r).1.mapError .eval ∧
    Represents m (s.step m.packModule r.step).2 (t.step m r).2

theorem agrees_of_error {r : Request} {e : EvalError} (h : Represents m s t)
    (hs : s.result m.packModule r.step = .error (.eval e)) (ht : t.step m r = (.error e, t)) :
    Agrees m s t r := by
  rw [Agrees, Session.step, hs, ht]
  exact ⟨rfl, h⟩

theorem agrees_of_ok {r : Request} {v : Value} {t' : Store}
    (hs : s.result m.packModule r.step = .ok v) (ht : t.step m r = (.ok v, t'))
    (h : Represents m (s.remember r.step v) t') : Agrees m s t r := by
  rw [Agrees, Session.step, hs, ht]
  exact ⟨rfl, h⟩

theorem agrees_initial (hm : m.Valid) (h : Represents m s t) : Agrees m s t .initial := by
  refine agrees_of_ok (v := .record (Slots.builder m fun _ => none)) ?_ rfl ⟨rfl, h.pack, h.full⟩
  show Session.constant m.packModule initialName = _
  rw [constant_initialName, eval_initialBuilder hm.fields_nodup]
  rfl

theorem agrees_insert (hm : m.Valid) (h : Represents m s t) (k : Kind) (name : String) (v : Value) :
    Agrees m s t (.insert k name v) := by
  have hs : s.result m.packModule (Request.insert k name v).step =
      ((insertion m k).apply [Session.key name, v, s.builder]).mapError .eval := applied_insertName m k _
  rw [h.builder] at hs
  cases hf : m.find? k name with
  | none =>
    rw [insertion_apply fun a ha => hm.startsUppercase_name ha, hf] at hs
    exact agrees_of_error h hs (by simp only [Store.step, hf])
  | some a =>
    obtain ⟨ha, rfl, rfl⟩ := Manifest.find?_some hf
    cases ht : t.slots with
    | none =>
      rw [ht, insertion_apply fun a ha => hm.startsUppercase_name ha, hf] at hs
      exact agrees_of_error h hs (by simp only [Store.step, hf, ht])
    | some σ =>
      let σ' : Slots := fun b => if b = a then some v else σ b
      have hst : t.step m (.insert a.kind a.name v) =
          (.ok (.record (σ'.builder m)), { t with slots := some σ' }) := by
        simp only [Store.step, hf, ht, σ']
      rw [ht, Option.elim_some, Slots.insertion_builder hm σ ha] at hs
      exact agrees_of_ok hs hst ⟨rfl, h.pack, h.full⟩

theorem agrees_tryBuild (hm : m.Valid) (h : Represents m s t) : Agrees m s t .tryBuild := by
  have hs : s.result m.packModule Request.tryBuild.step =
      ((tryBuild m).apply [s.builder]).mapError .eval := applied_tryBuildName m _
  rw [h.builder] at hs
  cases ht : t.slots with
  | none =>
    rw [ht, Option.elim_none] at hs
    cases ho : slotOrder m with
    | nil =>
      have hassets : m.assets = [] := List.eq_nil_iff_forall_not_mem.2 fun a ha => by
        simpa [ho] using mem_slotOrder.2 ha
      have hst : t.step m .tryBuild =
          (.ok (.just (.record [])), { t with snapshot := some fun _ => none }) := by
        simp only [Store.step, ht, ho]
      have hcontent : ∀ a ∈ m.assets,
          Fields.get? ([] : Fields Value) a.field = some ((fun _ => Value.null) a).just := by
        simp [hassets]
      rw [tryBuild_apply_complete hm.fields_nodup hcontent, hassets] at hs
      refine agrees_of_ok hs hst ⟨h.builder, ?_, ?_⟩
      · simp [Session.remember, Request.step, Value.just, Slots.pack]
      · simp [Slots.Full, hassets]
    | cons a as =>
      rw [tryBuild_apply_missing (a := a) (by rw [ho]; rfl)] at hs
      exact agrees_of_error h hs (by simp only [Store.step, ht, ho])
  | some σ =>
    rw [ht, Option.elim_some] at hs
    by_cases hfull : σ.Full m
    · have hst : t.step m .tryBuild =
          (.ok (.just (.record (σ.pack m))), { t with snapshot := some σ }) := by
        simp only [Store.step, ht, if_pos hfull]
      rw [Slots.tryBuild_builder_full hm hfull] at hs
      exact agrees_of_ok hs hst ⟨h.builder, rfl, by simpa using hfull⟩
    · obtain ⟨a, ha, hempty⟩ : ∃ a ∈ m.assets, σ a = none := by
        simpa [Slots.Full] using hfull
      rw [Slots.tryBuild_builder_of_empty hm ha hempty] at hs
      exact agrees_of_ok hs (by simp only [Store.step, ht, if_neg hfull]) h

theorem agrees_get (hm : m.Valid) (h : Represents m s t) (k : Kind) (name : String) :
    Agrees m s t (.get k name) := by
  have hs : s.result m.packModule (Request.get k name).step =
      ((lookup m k).apply (Session.lookupArgs s.pack k name)).mapError .eval := applied_getName m k _
  rw [h.pack] at hs
  cases hf : m.find? k name with
  | none =>
    rw [lookup_apply fun a ha => hm.startsUppercase_name ha, hf] at hs
    exact agrees_of_error h hs (by simp only [Store.step, hf])
  | some a =>
    obtain ⟨ha, rfl, rfl⟩ := Manifest.find?_some hf
    cases ht : t.snapshot with
    | none =>
      rw [ht, lookup_apply fun a ha => hm.startsUppercase_name ha, hf] at hs
      exact agrees_of_error h hs (by simp only [Store.step, hf, ht]; rfl)
    | some σ =>
      obtain ⟨v, hv⟩ := Option.isSome_iff_exists.1 (h.full σ ht a ha)
      rw [ht, Option.elim_some, Slots.lookup_pack hm (h.full σ ht) ha hv] at hs
      exact agrees_of_ok hs (by simp only [Store.step, hf, ht, Option.bind_some, hv]; rfl) h

theorem agrees (hm : m.Valid) (h : Represents m s t) (r : Request) : Agrees m s t r :=
  match r with
  | .initial => agrees_initial hm h
  | .insert k name v => agrees_insert hm h k name v
  | .tryBuild => agrees_tryBuild hm h
  | .get k name => agrees_get hm h k name

/-- From related states on, the answers stay the same. -/
theorem run_eq (hm : m.Valid) (h : Represents m s t) (rs : List Request) :
    s.run m.packModule (rs.map Request.step) = (t.run m rs).map (Except.mapError .eval) := by
  induction rs generalizing s t with
  | nil => rfl
  | cons r rs ih =>
    obtain ⟨hanswer, hnext⟩ := h.agrees hm r
    rw [List.map_cons, Session.run, Store.run, List.map_cons, hanswer, ih hnext]

end Represents

/-- The module of a valid manifest is a store with a snapshot: a session answers any requests, one after
another, as the store does. -/
theorem session_run_eq_store_run {m : Manifest} (hm : m.Valid) (rs : List Request) :
    Session.run m.packModule {} (rs.map Request.step) =
      (Store.run m {} rs).map (Except.mapError .eval) :=
  (Represents.start m).run_eq hm rs

/-- Two assets of different kinds: a key of the other kind is refused, a slot is missing before the
first builder, and the snapshot outlives the builder it was taken from. -/
theorem session_run_two_kinds :
    let m : Manifest := ⟨[⟨.sound, "ZombieDie", "zombie_die"⟩, ⟨.texture, "Troll", "zombie_1"⟩]⟩
    m.Valid ∧
      Session.run m.packModule {}
          ([.insert .texture "Troll" .null, .initial, .insert .texture "ZombieDie" .null,
            .insert .texture "Troll" (.int 1), .tryBuild, .insert .sound "ZombieDie" (.int 2),
            .tryBuild, .initial, .get .sound "ZombieDie"].map Request.step) =
        [.error (.eval (.noSuchField "troll")),
          .ok (.record [("zombieDie", .nothing), ("troll", .nothing)]),
          .error (.eval (.noMatchingBranch (Session.key "ZombieDie"))),
          .ok (.record [("zombieDie", .nothing), ("troll", (Value.int 1).just)]),
          .ok .nothing,
          .ok (.record [("zombieDie", (Value.int 2).just), ("troll", (Value.int 1).just)]),
          .ok (Value.record [("zombieDie", .int 2), ("troll", .int 1)]).just,
          .ok (.record [("zombieDie", .nothing), ("troll", .nothing)]),
          .ok (.int 2)] := by
  intro m
  have hm : m.Valid := by decide +kernel
  refine ⟨hm, (session_run_eq_store_run hm _).trans ?_⟩
  with_unfolding_all rfl

end TypedAssets.Pack
