import TypedAssets.Proofs.Functions

/-!
# Records of any origin as builders

The completion check takes any record, whether a session can make it or not. `completion_on_record` says
what it gives for one. It tells three cases apart (`slots_cases`): a slot is missing, every slot is full, or
every slot is there and one of them is not full.
-/

namespace TypedAssets.Pack

open Code

variable {m : Manifest} {b c : Fields Value}

instance : Inhabited Value := ⟨.null⟩

/-- The completion check of the module of a manifest, on a record. -/
def completion (m : Manifest) (b : Fields Value) : Except StepError Value :=
  Session.applied m.packModule tryBuildName [.record b]

/-- `a` is the first asset whose slot a record lacks, textures before sounds. -/
def FirstMissing (m : Manifest) (b : Fields Value) (a : Asset) : Prop :=
  ∃ read unread, m.ofKind .texture ++ m.ofKind .sound = read ++ a :: unread ∧
    (∀ r ∈ read, (b.get? r.field).isSome) ∧ b.get? a.field = none

theorem firstMissing_iff {a : Asset} :
    FirstMissing m b a ↔ (slotOrder m).find? (fun a => (b.get? a.field).isNone) = some a := by
  rw [List.find?_eq_some_iff_append]
  constructor
  · rintro ⟨read, unread, hread, hsome, hnone⟩
    exact ⟨by simp [hnone], read, unread, hread, fun r hr => by simp [hsome r hr]⟩
  · rintro ⟨hnone, read, unread, hread, hsome⟩
    exact ⟨read, unread, hread, fun r hr => by simpa using hsome r hr, by simpa using hnone⟩

theorem exists_firstMissing (h : ∃ a ∈ m.assets, b.get? a.field = none) : ∃ a, FirstMissing m b a := by
  obtain ⟨a, ha, hnone⟩ := h
  have hfind : ((slotOrder m).find? fun a => (b.get? a.field).isNone).isSome :=
    List.find?_isSome.2 ⟨a, mem_slotOrder.2 ha, by simp [hnone]⟩
  obtain ⟨d, hd⟩ := Option.isSome_iff_exists.1 hfind
  exact ⟨d, firstMissing_iff.2 hd⟩

theorem slots_cases (m : Manifest) (b : Fields Value) :
    (∃ a, FirstMissing m b a) ∨
      (∃ content : Asset → Value, ∀ a ∈ m.assets, b.get? a.field = some (content a).just) ∨
        (∀ a ∈ m.assets, b.get? a.field ≠ none) ∧
          ∃ a ∈ m.assets, ∀ v : Value, b.get? a.field ≠ some v.just := by
  by_cases hmissing : ∃ a ∈ m.assets, b.get? a.field = none
  · exact .inl (exists_firstMissing hmissing)
  push Not at hmissing
  by_cases hfull : ∀ a ∈ m.assets, ∃ v : Value, b.get? a.field = some v.just
  · choose! content hcontent using hfull
    exact .inr (.inl ⟨content, hcontent⟩)
  · push Not at hfull
    exact .inr (.inr ⟨hmissing, hfull⟩)

theorem completion_missing {a : Asset} (h : FirstMissing m b a) :
    completion m b = .error (.eval (.missingField a.field)) := by
  rw [completion, applied_tryBuildName, tryBuild_apply_missing (firstMissing_iff.1 h)]
  rfl

section

variable (hnd : (m.assets.map Asset.field).Nodup)
include hnd

theorem completion_full {content : Asset → Value}
    (h : ∀ a ∈ m.assets, b.get? a.field = some (content a).just) :
    completion m b = .ok (.just (.record (m.assets.map fun a => (a.field, content a)))) := by
  rw [completion, applied_tryBuildName, tryBuild_apply_complete hnd h]
  rfl

theorem completion_unfilled (h : ∀ a ∈ m.assets, b.get? a.field ≠ none) {a : Asset} (ha : a ∈ m.assets)
    (hne : ∀ v : Value, b.get? a.field ≠ some v.just) : completion m b = .ok .nothing := by
  choose! value hvalue using fun a ha => Option.ne_none_iff_exists'.1 (h a ha)
  have hcontent : (value a).content? = none := by
    refine Option.eq_none_iff_forall_ne_some.2 fun v hv => hne v ?_
    rw [hvalue a ha, Value.content?_eq_some_iff.1 hv]
  rw [completion, applied_tryBuildName, tryBuild_apply_incomplete hnd hvalue ha hcontent]
  rfl

/-- Records that agree on the slots are the same to the completion check. -/
theorem completion_congr (h : ∀ a ∈ m.assets, c.get? a.field = b.get? a.field) :
    completion m c = completion m b := by
  rcases slots_cases m b with ⟨a, ha⟩ | ⟨content, hfull⟩ | ⟨hsome, a, ha, hne⟩
  · have hc : FirstMissing m c a := by
      obtain ⟨read, unread, hread, hsome, hnone⟩ := ha
      have hmem : ∀ d ∈ read ++ a :: unread, d ∈ m.assets := by
        rw [← hread]
        exact fun d => mem_slotOrder.1
      refine ⟨read, unread, hread, fun r hr => ?_, ?_⟩
      · rw [h r (hmem r (List.mem_append_left _ hr))]
        exact hsome r hr
      · rw [h a (hmem a (by simp))]
        exact hnone
    rw [completion_missing hc, completion_missing ha]
  · have hc : ∀ a ∈ m.assets, c.get? a.field = some (content a).just := fun a ha =>
      (h a ha).trans (hfull a ha)
    rw [completion_full hnd hc, completion_full hnd hfull]
  · have hc : ∀ a ∈ m.assets, c.get? a.field ≠ none := fun a ha => by
      rw [h a ha]
      exact hsome a ha
    have hcne : ∀ v : Value, c.get? a.field ≠ some v.just := by
      rw [h a ha]
      exact hne
    rw [completion_unfilled hnd hc ha hcne, completion_unfilled hnd hsome ha hne]

/-- The completion check fails with the first missing slot, textures before sounds; it gives a pack with the
content of every slot, in manifest order, if all of them are full; and it gives nothing otherwise. No field
that is not a slot matters. -/
theorem completion_on_record (b : Fields Value) :
    ((∃ a ∈ m.assets, b.get? a.field = none) →
        ∃ a, FirstMissing m b a ∧ completion m b = .error (.eval (.missingField a.field))) ∧
      (∀ content : Asset → Value, (∀ a ∈ m.assets, b.get? a.field = some (content a).just) →
        completion m b = .ok (.just (.record (m.assets.map fun a => (a.field, content a))))) ∧
      ((∀ a ∈ m.assets, b.get? a.field ≠ none) →
        (∃ a ∈ m.assets, ∀ v : Value, b.get? a.field ≠ some v.just) → completion m b = .ok .nothing) ∧
      ∀ c : Fields Value, (∀ a ∈ m.assets, c.get? a.field = b.get? a.field) →
        completion m c = completion m b := by
  refine ⟨fun hmissing => ?_, fun content h => completion_full hnd h, ?_, fun c h => completion_congr hnd h⟩
  · obtain ⟨a, ha⟩ := exists_firstMissing hmissing
    exact ⟨a, ha, completion_missing ha⟩
  · rintro hsome ⟨a, ha, hne⟩
    exact completion_unfilled hnd hsome ha hne

end

/-- The texture is missed first although the sound comes first in the manifest, a slot with two contents is
not full, and a field that is no slot does not matter. -/
theorem completion_on_record_interleaved :
    let hit : Asset := ⟨.sound, "Hit", "hit"⟩
    let arrow : Asset := ⟨.texture, "Arrow", "arrow"⟩
    let m : Manifest := ⟨[hit, arrow]⟩
    let full : Fields Value := [("arrow", .just (.text "a")), ("hit", .just .nothing)]
    let double : Fields Value := [("arrow", .ctor "Just" [.null, .null]), ("hit", .just .nothing)]
    (m.assets.map Asset.field).Nodup ∧
      (∃ a ∈ m.assets, Fields.get? ([] : Fields Value) a.field = none) ∧
      completion m [] = .error (.eval (.missingField "arrow")) ∧
      completion m full = .ok (.just (.record [("hit", .nothing), ("arrow", .text "a")])) ∧
      completion m (("speed", .int 1) :: full) = completion m full ∧
      completion m double = .ok .nothing := by
  intro hit arrow m full double
  have hnd : (m.assets.map Asset.field).Nodup := by decide +kernel
  have hhit : hit.field = "hit" := by decide +kernel
  have harrow : arrow.field = "arrow" := by decide +kernel
  have hnone : ∃ a ∈ m.assets, Fields.get? ([] : Fields Value) a.field = none :=
    ⟨hit, List.mem_cons_self, rfl⟩
  have hmem : ∀ {p : Asset → Prop}, p hit → p arrow → ∀ a ∈ m.assets, p a := fun hh ha => by
    simpa [m] using ⟨hh, ha⟩
  refine ⟨hnd, hnone, ?_, ?_, ?_, ?_⟩
  · obtain ⟨a, ha, herror⟩ := (completion_on_record hnd []).1 hnone
    obtain rfl : arrow = a := Option.some.inj (firstMissing_iff.1 ha)
    rw [herror, harrow]
  · have hfull := (completion_on_record hnd full).2.1 (fun a => if a = hit then .nothing else .text "a")
      (hmem (by rw [hhit]; rfl) (by rw [harrow]; rfl))
    simpa [m, hhit, harrow, hit, arrow] using hfull
  · exact (completion_on_record hnd full).2.2.2 _
      (hmem (by rw [hhit]; rfl) (by rw [harrow]; rfl))
  · refine (completion_on_record hnd double).2.2.1 (hmem ?_ ?_) ⟨arrow, by simp [m], fun v => ?_⟩
    · rw [hhit]
      exact Option.some_ne_none _
    · rw [harrow]
      exact Option.some_ne_none _
    · rw [harrow]
      simp [double, Fields.get?, Value.just]

end TypedAssets.Pack
