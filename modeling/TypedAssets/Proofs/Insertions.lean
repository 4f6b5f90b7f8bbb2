import TypedAssets.Proofs.Builders
import TypedAssets.Proofs.Validity

/-!
# Insertions into records of any origin

An insertion sets one field of a record that has it and leaves all else as it was, whatever the record holds
(`insert_eq`). So insertions of different assets commute, of two insertions of one asset the later counts, and a
record that completes to a pack still does after any insertions, to the pack with the new contents
(`insertion_laws`).
-/

namespace TypedAssets.Pack

open Code

variable {m : Manifest} {a : Asset} {b : Fields Value} {es : List (Asset × Value)}

/-- Inserts a value for an asset, under the key of the asset. -/
def insert (m : Manifest) (builder : Value) (e : Asset × Value) : Except StepError Value :=
  Session.applied m.packModule e.1.kind.insertName [Session.key e.1.name, e.2, builder]

/-- Inserts values for assets, one after another. -/
def insertAll (m : Manifest) (b : Fields Value) (es : List (Asset × Value)) : Except StepError Value :=
  es.foldlM (insert m) (.record b)

/-- The field that an insertion sets, and what it sets it to. -/
def slotOf (e : Asset × Value) : String × Value := (e.1.field, e.2.just)

/-- The value inserted last for an asset. -/
def lastInserted (es : List (Asset × Value)) (a : Asset) : Option Value := es.reverse.lookup a

theorem lastInserted_append (es : List (Asset × Value)) (e : Asset × Value) (a : Asset) :
    lastInserted (es ++ [e]) a = if a = e.1 then some e.2 else lastInserted es a := by
  rw [lastInserted, List.reverse_append, List.reverse_singleton, List.singleton_append, List.lookup_cons]
  by_cases hea : a = e.1
  · simp [hea]
  · simp [hea, beq_eq_false_iff_ne.2 hea, lastInserted]

section

variable (hm : m.Valid)
include hm

theorem insert_eq (ha : a ∈ m.assets) (hb : a.field ∈ b.names) (v : Value) :
    insert m (.record b) (a, v) = .ok (.record (b.set a.field v.just)) := by
  have hsome := Fields.isSome_get?_iff.2 hb
  rw [insert, applied_insertName, insertion_apply (fun c hc => hm.startsUppercase_name hc),
    Manifest.find?_of_mem hm.names_nodup ha]
  simp [Option.isNone_eq_false_iff.2 hsome, Except.mapError]

theorem insertAll_eq (hb : ∀ a ∈ m.assets, a.field ∈ b.names) (hes : ∀ e ∈ es, e.1 ∈ m.assets) :
    insertAll m b es = .ok (.record (b.merge (es.map slotOf))) := by
  induction es generalizing b with
  | nil => rfl
  | cons e es ih =>
    obtain ⟨he, hes⟩ := List.forall_mem_cons.1 hes
    have hset : ∀ a ∈ m.assets, a.field ∈ (b.set e.1.field e.2.just).names := fun a ha =>
      Fields.mem_names_set.2 (.inl (hb a ha))
    rw [insertAll, List.foldlM_cons, insert_eq hm he (hb e.1 he)]
    exact ih hset hes

/-- A slot holds what was inserted for its asset last, or else what it held before. -/
theorem get?_merge_slots (hes : ∀ e ∈ es, e.1 ∈ m.assets) (ha : a ∈ m.assets) :
    (b.merge (es.map slotOf)).get? a.field = ((lastInserted es a).map Value.just).or (b.get? a.field) := by
  -- from the last insertion back, since the first that is found counts
  induction es using List.reverseRecOn with
  | nil => rfl
  | append_singleton es e ih =>
    have hes' : ∀ e ∈ es, e.1 ∈ m.assets := fun d hd => hes d (List.mem_append_left _ hd)
    have he : e.1 ∈ m.assets := hes e (by simp)
    have hmerge : b.merge ((es ++ [e]).map slotOf) = (b.merge (es.map slotOf)).set e.1.field e.2.just := by
      rw [List.map_append, Fields.merge, List.foldl_append]
      rfl
    rw [hmerge, lastInserted_append]
    by_cases hea : a = e.1
    · rw [if_pos hea, hea, Fields.get?_set_self]
      rfl
    · have hfield : e.1.field ≠ a.field := fun h => hea (List.inj_on_of_nodup_map hm.fields_nodup he ha h).symm
      rw [if_neg hea, Fields.get?_set_of_ne hfield, ih hes']

end

theorem completion_eq_just_iff (hnd : (m.assets.map Asset.field).Nodup) {p : Value} :
    completion m b = .ok p.just ↔ ∃ content : Asset → Value,
      (∀ a ∈ m.assets, b.get? a.field = some (content a).just) ∧
        p = .record (m.assets.map fun a => (a.field, content a)) := by
  constructor
  · intro h
    rcases slots_cases m b with ⟨a, ha⟩ | ⟨content, hfull⟩ | ⟨hsome, a, ha, hne⟩
    · rw [completion_missing ha] at h
      cases h
    · rw [completion_full hnd hfull] at h
      cases h
      exact ⟨content, hfull, rfl⟩
    · rw [completion_unfilled hnd hsome ha hne] at h
      exact absurd h (by simp [Value.nothing, Value.just])
  · rintro ⟨content, hfull, rfl⟩
    exact completion_full hnd hfull

/-- Insertions into any record that has the slots of a valid manifest. Those of two assets commute, of two for
one asset only the later counts, and an insertion changes its own field and keeps all fields where they are. If
the record completes to a pack, so it does after any insertions, with what was inserted last for each asset. -/
theorem insertion_laws (hm : m.Valid) (hb : ∀ a ∈ m.assets, a.field ∈ b.names) :
    (∀ a ∈ m.assets, ∀ a' ∈ m.assets, a ≠ a' → ∀ v w, ∃ c : Fields Value,
        insertAll m b [(a, v), (a', w)] = .ok (.record c) ∧ insertAll m b [(a', w), (a, v)] = .ok (.record c)) ∧
      (∀ a ∈ m.assets, ∀ v w, ∃ c : Fields Value,
        insertAll m b [(a, v), (a, w)] = .ok (.record c) ∧ insertAll m b [(a, w)] = .ok (.record c)) ∧
      (∀ a ∈ m.assets, ∀ v, ∃ c : Fields Value, insertAll m b [(a, v)] = .ok (.record c) ∧
        c.names = b.names ∧ c.get? a.field = some v.just ∧ ∀ x, x ≠ a.field → c.get? x = b.get? x) ∧
      ∀ p : Value, completion m b = .ok p.just → ∃ content : Asset → Value,
        p = .record (m.assets.map fun a => (a.field, content a)) ∧
          ∀ es : List (Asset × Value), (∀ e ∈ es, e.1 ∈ m.assets) → ∃ c : Fields Value,
            insertAll m b es = .ok (.record c) ∧ completion m c =
              .ok (.just (.record (m.assets.map fun a => (a.field, (lastInserted es a).getD (content a))))) := by
  refine ⟨fun a ha a' ha' hne v w => ?_, fun a ha v w => ?_, fun a ha v => ?_, fun p hp => ?_⟩
  · have hfield : a.field ≠ a'.field := fun h => hne (List.inj_on_of_nodup_map hm.fields_nodup ha ha' h)
    refine ⟨_, insertAll_eq hm hb (by simp [ha, ha']), ?_⟩
    rw [insertAll_eq hm hb (by simp [ha, ha'])]
    exact congrArg (Except.ok ∘ Value.record) (Fields.set_comm (hb a' ha') (hb a ha) (Ne.symm hfield))
  · refine ⟨_, insertAll_eq hm hb (by simp [ha]), ?_⟩
    rw [insertAll_eq hm hb (by simp [ha])]
    exact congrArg (Except.ok ∘ Value.record) Fields.set_set.symm
  · refine ⟨_, insertAll_eq hm hb (by simp [ha]), Fields.names_set_of_mem (hb a ha), Fields.get?_set_self, ?_⟩
    exact fun x hx => Fields.get?_set_of_ne (Ne.symm hx)
  · obtain ⟨content, hfull, rfl⟩ := (completion_eq_just_iff hm.fields_nodup).1 hp
    refine ⟨content, rfl, fun es hes => ⟨_, insertAll_eq hm hb hes, ?_⟩⟩
    refine completion_full hm.fields_nodup fun a ha => ?_
    rw [get?_merge_slots hm hes ha, hfull a ha]
    cases lastInserted es a <;> rfl

/-- Slots in another order than in the manifest, a field that is no slot, and a sound inserted twice around a
texture. -/
theorem insertion_laws_full_record :
    let troll : Asset := ⟨.texture, "Troll", "zombie_1"⟩
    let die : Asset := ⟨.sound, "ZombieDie", "die"⟩
    let m : Manifest := ⟨[troll, die]⟩
    let b : Fields Value := [("zombieDie", (Value.int 1).just), ("speed", .null), ("troll", (Value.int 2).just)]
    m.Valid ∧ (∀ a ∈ m.assets, a.field ∈ b.names) ∧
      completion m b = .ok (.just (.record [("troll", .int 2), ("zombieDie", .int 1)])) ∧
      ∃ c : Fields Value, insertAll m b [(die, .int 3), (troll, .null), (die, .int 4)] = .ok (.record c) ∧
        completion m c = .ok (.just (.record [("troll", .null), ("zombieDie", .int 4)])) := by
  intro troll die m b
  have hm : m.Valid := by decide +kernel
  have hb : ∀ a ∈ m.assets, a.field ∈ b.names := by decide +kernel
  have htroll : troll.field = "troll" := by decide +kernel
  have hdie : die.field = "zombieDie" := by decide +kernel
  have hcontent : ∀ a ∈ m.assets, b.get? a.field = some (if a = die then Value.int 1 else .int 2).just := by
    simp [m, htroll, hdie, b, Fields.get?_cons, troll, die]
  have hfull : completion m b = .ok (.just (.record [("troll", .int 2), ("zombieDie", .int 1)])) := by
    rw [completion_full hm.fields_nodup hcontent]
    simp [m, htroll, hdie, troll, die]
  obtain ⟨-, -, -, hcomplete⟩ := insertion_laws hm hb
  obtain ⟨content, -, hinsert⟩ := hcomplete _ hfull
  obtain ⟨c, hc, hpack⟩ := hinsert [(die, .int 3), (troll, .null), (die, .int 4)] (by simp [m])
  refine ⟨hm, hb, hfull, c, hc, hpack.trans ?_⟩
  have hlast : lastInserted [(die, .int 3), (troll, .null), (die, .int 4)] troll = some .null := rfl
  have hlast' : lastInserted [(die, .int 3), (troll, .null), (die, .int 4)] die = some (.int 4) := rfl
  simp only [m, List.map_cons, List.map_nil, htroll, hdie, hlast, hlast', Option.getD_some]

end TypedAssets.Pack
