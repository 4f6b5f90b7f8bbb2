import TypedAssets.Proofs.Store

/-!
# Manifests in another order

The order of a manifest decides the order of the fields, the branches and the captures of its module, and
none of that is seen from outside. `session_run_perm`: a manifest with the same assets in another order is
valid too, and its sessions give the same answers to the same requests, up to the order of the fields of a
builder or a pack. In the proof one store stands for both manifests, since slots and snapshots know
nothing of the order (`Store.step_perm`).
-/

namespace TypedAssets

open Code

/-- The kinds of failures: a name that is not there, code used against its rules, a case without a branch
for its subject, and a value of a wrong type or of a wrong size. -/
inductive FailureKind where
  | missing
  | misuse
  | noBranch
  | wrongType
  | wrongSize
  deriving DecidableEq

def Code.EvalError.kind : EvalError → FailureKind
  | .unbound _ | .missingField _ => .missing
  | .noSuchField _ | .unexpectedCall _ | .notExpression _ | .notPattern _ | .arity .. => .misuse
  | .noMatchingBranch _ => .noBranch
  | .notRecord _ | .notPair .. | .notKey _ => .wrongType
  | .pairLength .. => .wrongSize

/-- Two records that are the same map from fields to values. -/
def Code.Value.SameRecord (v w : Value) : Prop :=
  ∃ fs gs : Fields Value, v = .record fs ∧ w = .record gs ∧ ∀ x, fs.get? x = gs.get? x

namespace Pack

def StepError.kind : StepError → FailureKind
  | .undeclared _ => .missing
  | .eval e => e.kind

namespace Request

/-- Results of a request that mean the same: a builder or a pack counts as a map from fields, and what is
looked up must be equal. -/
def SameResult : Request → Value → Value → Prop
  | .initial, v, w | .insert .., v, w => v.SameRecord w
  | .tryBuild, v, w =>
    v = .nothing ∧ w = .nothing ∨ ∃ p q : Value, v = p.just ∧ w = q.just ∧ p.SameRecord q
  | .get .., v, w => v = w

/-- Two results that mean the same, or two failures of one kind. -/
def SameAnswer (r : Request) : Except StepError Value → Except StepError Value → Prop
  | .ok v, .ok w => r.SameResult v w
  | .error e, .error e' => e.kind = e'.kind
  | _, _ => False

theorem sameAnswer_get_self (k : Kind) (name : String) (x : Except StepError Value) :
    (get k name).SameAnswer x x := by
  cases x <;> exact rfl

/-- Answers to requests made one after another that are the same, request by request. -/
def SameAnswers : List Request → List (Except StepError Value) → List (Except StepError Value) → Prop
  | [], [], [] => True
  | r :: rs, x :: xs, y :: ys => r.SameAnswer x y ∧ SameAnswers rs xs ys
  | _, _, _ => False

end Request

end Pack

section

variable {m n : Manifest} (h : n.assets.Perm m.assets)
include h

theorem Manifest.Valid.perm (hm : m.Valid) : n.Valid := by
  obtain ⟨hpatterns, hnd, hnames⟩ := m.valid_iff.1 hm
  refine n.valid_iff.2 ⟨fun a ha => hpatterns a (h.mem_iff.1 ha), ?_, fun a ha => ?_⟩
  · exact (h.map Asset.field).nodup_iff.2 hnd
  · exact hnames a (h.mem_iff.1 ha)

theorem Manifest.find?_perm (hnd : (m.assets.map Asset.name).Nodup) (k : Kind) (name : String) :
    n.find? k name = m.find? k name := by
  have hnd' : (n.assets.map Asset.name).Nodup := (h.map Asset.name).nodup_iff.2 hnd
  cases hf : n.find? k name with
  | some a =>
    obtain ⟨ha, rfl, rfl⟩ := find?_some hf
    exact (find?_of_mem hnd (h.mem_iff.1 ha)).symm
  | none =>
    cases hf' : m.find? k name with
    | none => rfl
    | some a =>
      obtain ⟨ha, rfl, rfl⟩ := find?_some hf'
      rw [find?_of_mem hnd' (h.mem_iff.2 ha)] at hf
      cases hf

end

namespace Pack

namespace Slots
variable {m n : Manifest} (σ : Slots)

theorem full_perm (h : n.assets.Perm m.assets) : σ.Full n ↔ σ.Full m :=
  forall_congr' fun _ => imp_congr_left h.mem_iff

theorem sameRecord_builder (hm : m.Valid) (h : n.assets.Perm m.assets) :
    (Value.record (σ.builder n)).SameRecord (.record (σ.builder m)) := by
  have hnd : (σ.builder m).names.Nodup := by
    rw [builder, Fields.names_map]
    exact hm.fields_nodup
  exact ⟨_, _, rfl, rfl, Fields.get?_perm hnd (h.map _)⟩

theorem sameRecord_pack (hm : m.Valid) (h : n.assets.Perm m.assets) (hfull : σ.Full m) :
    (Value.record (σ.pack n)).SameRecord (.record (σ.pack m)) := by
  have hnd : (σ.pack m).names.Nodup := by
    rw [pack_of_full hfull, Fields.names_map]
    exact hm.fields_nodup
  exact ⟨_, _, rfl, rfl, Fields.get?_perm hnd (h.filterMap _)⟩

end Slots

namespace Store
variable {m n : Manifest}

/-- The answers of a store for two manifests with the same assets, as sessions give them. -/
def Agree (m n : Manifest) (t : Store) (r : Request) : Prop :=
  r.SameAnswer ((t.step n r).1.mapError .eval) ((t.step m r).1.mapError .eval) ∧
    (t.step n r).2 = (t.step m r).2

theorem step_perm (hm : m.Valid) (h : n.assets.Perm m.assets) (t : Store) (r : Request) :
    Agree m n t r := by
  cases r with
  | initial => exact ⟨Slots.sameRecord_builder _ hm h, rfl⟩
  | insert k name v =>
    rw [Agree, step, step, Manifest.find?_perm h hm.names_nodup]
    cases m.find? k name with
    | none => exact ⟨rfl, rfl⟩
    | some a =>
      cases t.slots with
      | none => exact ⟨rfl, rfl⟩
      | some σ => exact ⟨Slots.sameRecord_builder _ hm h, rfl⟩
  | tryBuild =>
    rw [Agree, step, step]
    cases t.slots with
    | none =>
      -- the first slot that is missing depends on the order, but not whether there is one
      have hlen : (slotOrder n).length = (slotOrder m).length := by
        rw [(slotOrder_perm n).length_eq, (slotOrder_perm m).length_eq, h.length_eq]
      cases hn : slotOrder n with
      | nil =>
        rw [hn] at hlen
        rw [List.eq_nil_of_length_eq_zero hlen.symm]
        exact ⟨.inr ⟨_, _, rfl, rfl, [], [], rfl, rfl, fun _ => rfl⟩, rfl⟩
      | cons b bs =>
        cases hmo : slotOrder m with
        | nil => simp [hn, hmo] at hlen
        | cons a as => exact ⟨rfl, rfl⟩
    | some σ =>
      simp only [σ.full_perm h]
      by_cases hfull : σ.Full m
      · rw [if_pos hfull, if_pos hfull]
        exact ⟨.inr ⟨_, _, rfl, rfl, σ.sameRecord_pack hm h hfull⟩, rfl⟩
      · rw [if_neg hfull, if_neg hfull]
        exact ⟨.inl ⟨rfl, rfl⟩, rfl⟩
  | get k name =>
    rw [Agree, step, step, Manifest.find?_perm h hm.names_nodup]
    exact ⟨Request.sameAnswer_get_self k name _, rfl⟩

theorem run_perm (hm : m.Valid) (h : n.assets.Perm m.assets) (t : Store) (rs : List Request) :
    Request.SameAnswers rs ((t.run n rs).map (Except.mapError .eval))
      ((t.run m rs).map (Except.mapError .eval)) := by
  induction rs generalizing t with
  | nil => trivial
  | cons r rs ih =>
    obtain ⟨hanswer, hnext⟩ := step_perm hm h t r
    refine ⟨hanswer, ?_⟩
    rw [hnext]
    exact ih _

end Store

/-- The order of a manifest means nothing: with the same assets in another order it stays valid, and
sessions answer any requests as before, with failures of the same kinds. -/
theorem session_run_perm {m n : Manifest} (hm : m.Valid) (h : n.assets.Perm m.assets) :
    n.Valid ∧ ∀ rs : List Request,
      Request.SameAnswers rs (Session.run n.packModule {} (rs.map Request.step))
        (Session.run m.packModule {} (rs.map Request.step)) := by
  have hn : n.Valid := hm.perm h
  refine ⟨hn, fun rs => ?_⟩
  rw [(Represents.start n).run_eq hn, (Represents.start m).run_eq hm]
  exact Store.run_perm hm h {} rs

/-- The slot that an early completion misses first is another one in the other order, but a slot that is
missing it is in both. -/
theorem session_run_perm_reversed :
    let troll : Asset := ⟨.texture, "Troll", "zombie_1"⟩
    let die : Asset := ⟨.sound, "ZombieDie", "zombie_die"⟩
    let ogre : Asset := ⟨.texture, "Ogre", "ogre"⟩
    let m : Manifest := ⟨[troll, die, ogre]⟩
    let n : Manifest := ⟨[ogre, die, troll]⟩
    let rs : List Request := [.tryBuild, .initial, .insert .sound "ZombieDie" (.int 1), .insert .sound "Ogre" .null]
    m.Valid ∧ n.assets.Perm m.assets ∧ n.Valid ∧
      Request.SameAnswers rs (Session.run n.packModule {} (rs.map Request.step))
        (Session.run m.packModule {} (rs.map Request.step)) ∧
      (Session.run n.packModule {} (rs.map Request.step)).head? = some (.error (.eval (.missingField "ogre"))) ∧
      (Session.run m.packModule {} (rs.map Request.step)).head? = some (.error (.eval (.missingField "troll"))) := by
  intro troll die ogre m n rs
  have hm : m.Valid := by decide +kernel
  have hperm : n.assets.Perm m.assets := by decide
  obtain ⟨hn, hrun⟩ := session_run_perm hm hperm
  refine ⟨hm, hperm, hn, hrun rs, ?_, ?_⟩
  · have hfield : ogre.field = "ogre" := by decide +kernel
    rw [(Represents.start n).run_eq hn, ← hfield]
    rfl
  · have hfield : troll.field = "troll" := by decide +kernel
    rw [(Represents.start m).run_eq hm, ← hfield]
    rfl

end Pack

end TypedAssets
