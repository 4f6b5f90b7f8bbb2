import TypedAssets.Proofs.Store

/-!
# Loading a pack

A game goes through the two load lists, loads what they ask for and inserts each asset when it comes in.
`loads_complete_pack`: in whatever order the assets come in, the pack is complete with the last of them and
not before, and it holds every asset under its own key. The builder on the way is known by the loads that
have come in (`fill_eq`), so the order they came in plays no part.
-/

namespace TypedAssets.Pack

open Code

/-- Inserts what came in for a load, under the load's key. -/
def insertLoad (M : Module) (f : String → Value) (builder : Value) (l : Load) : Except StepError Value :=
  Session.applied M l.kind.insertName [Session.key l.key, f l.path, builder]

/-- The builder after some loads have come in; `f` says what is found at each path. -/
def fill (M : Module) (f : String → Value) (ls : List Load) : Except StepError Value := do
  ls.foldlM (insertLoad M f) (← Session.constant M initialName)

variable {m : Manifest} {f : String → Value} {ls : List Load}

theorem loads_append (m : Manifest) : loads m .texture ++ loads m .sound = (slotOrder m).map loadOf := by
  rw [slotOrder, List.map_append]
  rfl

theorem loadOf_injective (hm : m.Valid) {a b : Asset} (ha : a ∈ m.assets) (hb : b ∈ m.assets)
    (h : loadOf a = loadOf b) : a = b :=
  hm.eq_of_name_eq ha hb (congrArg Load.key h)

theorem loads_nodup (hm : m.Valid) : (loads m .texture ++ loads m .sound).Nodup := by
  rw [loads_append]
  refine List.Nodup.map_on (fun a ha b hb => loadOf_injective hm ?_ ?_) ?_
  · exact mem_slotOrder.1 ha
  · exact mem_slotOrder.1 hb
  · exact (slotOrder_perm m).nodup_iff.2 (List.Nodup.of_map _ hm.names_nodup)

/-- The slots that loads fill. -/
def filled (f : String → Value) (ls : List Load) : Slots := fun a =>
  if loadOf a ∈ ls then some (f a.loadPath) else none

theorem foldlM_insertLoad (hm : m.Valid) (σ : Slots) (h : ∀ l ∈ ls, ∃ a ∈ m.assets, loadOf a = l) :
    ls.foldlM (insertLoad m.packModule f) (.record (σ.builder m)) =
      .ok (.record (Slots.builder m fun a => if loadOf a ∈ ls then some (f a.loadPath) else σ a)) := by
  induction ls generalizing σ with
  | nil => simp [pure, Except.pure]
  | cons l ls ih =>
    obtain ⟨a, ha, rfl⟩ := h l List.mem_cons_self
    have hinsert : insertLoad m.packModule f (.record (σ.builder m)) (loadOf a) =
        .ok (.record (Slots.builder m fun b => if b = a then some (f a.loadPath) else σ b)) := by
      rw [insertLoad, applied_insertName]
      show ((insertion m a.kind).apply [Session.key a.name, f a.loadPath, _]).mapError _ = _
      rw [Slots.insertion_builder hm σ ha]
      rfl
    rw [List.foldlM_cons, hinsert]
    show ls.foldlM _ _ = _
    rw [ih _ fun l hl => h l (List.mem_cons_of_mem _ hl)]
    refine congrArg (Except.ok ∘ Value.record) (Slots.builder_congr fun b hb => ?_)
    by_cases hab : b = a
    · simp [hab]
    · have hne : loadOf b ≠ loadOf a := fun h => hab (loadOf_injective hm hb ha h)
      simp [hab, hne]

theorem fill_eq (hm : m.Valid) (h : ∀ l ∈ ls, ∃ a ∈ m.assets, loadOf a = l) :
    fill m.packModule f ls = .ok (.record ((filled f ls).builder m)) := by
  have hstart : Session.constant m.packModule initialName =
      .ok (.record (Slots.builder m fun _ => none)) := by
    rw [constant_initialName, eval_initialBuilder hm.fields_nodup]
    rfl
  rw [fill, hstart]
  exact foldlM_insertLoad hm _ h

theorem full_filled (h : ∀ a ∈ m.assets, loadOf a ∈ ls) : (filled f ls).Full m := by
  intro a ha
  rw [filled, if_pos (h a ha)]
  rfl

/-- The load lists of a valid manifest ask for the file of each asset under its key. Whatever order the
files come in, the pack is complete with the last of them and no sooner, and every key then gives what came
in for its asset. -/
theorem loads_complete_pack (hm : m.Valid) :
    (∀ k, Session.constant m.packModule (loadListName k) = .ok (.list ((loads m k).map Load.value))) ∧
      ∀ (f : String → Value) (ls : List Load), ls.Perm (loads m .texture ++ loads m .sound) →
        (∀ done pending, ls = done ++ pending → pending ≠ [] → ∃ b,
          fill m.packModule f done = .ok b ∧
            Session.applied m.packModule tryBuildName [b] = .ok .nothing) ∧
        ∃ b p, fill m.packModule f ls = .ok b ∧
          Session.applied m.packModule tryBuildName [b] = .ok p.just ∧
            ∀ a ∈ m.assets, Session.applied m.packModule a.kind.getName
              (Session.lookupArgs p a.kind a.name) = .ok (f a.loadPath) := by
  refine ⟨fun k => ?_, fun f ls hperm => ?_⟩
  · rw [Session.constant, find_loadListName]
    exact congrArg (Except.mapError StepError.eval)
      (eval_loadList (fun a ha => hm.startsUppercase_name ha) k)
  have hmem (l : Load) : l ∈ ls ↔ ∃ a ∈ m.assets, loadOf a = l := by
    rw [hperm.mem_iff, loads_append, List.mem_map]
    exact exists_congr fun a => and_congr_left fun _ => mem_slotOrder
  refine ⟨?_, ?_⟩
  · rintro done pending rfl hpending
    obtain ⟨l, pending, rfl⟩ := List.exists_cons_of_ne_nil hpending
    obtain ⟨a, ha, rfl⟩ := (hmem l).1 (by simp)
    -- the load of `a` is still pending, and no load comes in twice
    have hdone : loadOf a ∉ done := by
      have hnd := hperm.nodup_iff.2 (loads_nodup hm)
      exact fun h => (List.nodup_append.1 hnd).2.2 _ h _ List.mem_cons_self rfl
    refine ⟨_, fill_eq hm fun l hl => (hmem l).1 (List.mem_append_left _ hl), ?_⟩
    rw [applied_tryBuildName, Slots.tryBuild_builder_of_empty hm ha (if_neg hdone)]
    rfl
  · have hall : ∀ a ∈ m.assets, loadOf a ∈ ls := fun a ha => (hmem _).2 ⟨a, ha, rfl⟩
    have hfull : (filled f ls).Full m := full_filled hall
    refine ⟨_, .record ((filled f ls).pack m), fill_eq hm fun l hl => (hmem l).1 hl, ?_, fun a ha => ?_⟩
    · rw [applied_tryBuildName, Slots.tryBuild_builder_full hm hfull]
      rfl
    · rw [applied_getName, Slots.lookup_pack hm hfull ha (if_pos (hall a ha))]
      rfl

/-- A sound comes in before the textures, and these come in against their order. -/
theorem loads_complete_pack_sound_first :
    let m : Manifest :=
      ⟨[⟨.texture, "Troll", "zombie_1"⟩, ⟨.sound, "ZombieDie", "die"⟩, ⟨.texture, "Ogre", "ogre"⟩]⟩
    let die : Load := ⟨.sound, "./assets/sound/die.mp3", "ZombieDie"⟩
    let ogre : Load := ⟨.texture, "./assets/img/ogre.png", "Ogre"⟩
    let troll : Load := ⟨.texture, "./assets/img/zombie_1.png", "Troll"⟩
    m.Valid ∧ [die, ogre, troll].Perm (loads m .texture ++ loads m .sound) ∧
      (∃ b, fill m.packModule .text [die, ogre] = .ok b ∧
        Session.applied m.packModule tryBuildName [b] = .ok .nothing) ∧
      ∃ b p, fill m.packModule .text [die, ogre, troll] = .ok b ∧
        Session.applied m.packModule tryBuildName [b] = .ok p.just ∧
          Session.applied m.packModule "getTexture" [p, Session.key "Troll"] =
            .ok (.text "./assets/img/zombie_1.png") := by
  intro m die ogre troll
  have hm : m.Valid := by decide +kernel
  have hperm : [die, ogre, troll].Perm (loads m .texture ++ loads m .sound) := by decide +kernel
  obtain ⟨hbefore, b, p, hfill, htry, hget⟩ := (loads_complete_pack hm).2 .text _ hperm
  exact ⟨hm, hperm, hbefore [die, ogre] [troll] rfl (List.cons_ne_nil _ _), b, p, hfill, htry,
    hget ⟨.texture, "Troll", "zombie_1"⟩ List.mem_cons_self⟩

end TypedAssets.Pack
