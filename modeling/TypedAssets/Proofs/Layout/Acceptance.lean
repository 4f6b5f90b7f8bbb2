import Mathlib.Data.List.Basic
import TypedAssets.Code.Layout.Module
import TypedAssets.Proofs.Layout.Block

/-!
# Which code has a layout

A case takes lines of its own, so it can only stand where nothing is to follow it: as the body of a function, as
the body of a branch of such a case, or as the last argument of a call in such a place. An expression can be the
body of a function exactly if its cases stand there, none of them has neither branches nor a type, and nothing in
it is something else than an expression (`blockLines_ok_iff`). Types always have a layout, a module has one if all
of its declarations have, and if not, the first that has none is reported (`layout_ok_iff`).
-/

namespace TypedAssets.Code

namespace Node

def isExpression : Node → Bool
  | .var _ | .access .. | .str _ | .wildcard => true
  | .call .. | .list _ | .tuple _ | .record _ | .update .. | .case .. => true
  | _ => false

def isCase : Node → Bool
  | .case .. => true
  | _ => false

/-- Whether a case has no branches and no type to take them from. -/
def isVoid : Node → Bool
  | .case _ [] none => true
  | _ => false

/-- The parts of an expression that end where it ends: the bodies of a case and the last argument of a call. -/
def tailParts : Node → List Node
  | .call _ ns => ns.getLast?.toList
  | .case _ bs _ => bs.map Prod.snd
  | _ => []

/-- The other parts of an expression. -/
def innerParts : Node → List Node
  | .call _ ns => ns.dropLast
  | .list ns => ns
  | .tuple ns => ns
  | .record fs => fs.map Prod.snd
  | .update _ fs => fs.map Prod.snd
  | .case s bs _ => s :: bs.map Prod.fst
  | _ => []

def parts (n : Node) : List Node := n.innerParts ++ n.tailParts

theorem mem_parts_call {m : Node} {f : String} {ns : List Node} : m ∈ (Node.call f ns).parts ↔ m ∈ ns := by
  rw [parts, innerParts, tailParts]
  rcases ns.eq_nil_or_concat' with rfl | ⟨ns, n, rfl⟩
  · rfl
  · simp

theorem parts_list (ns : List Node) : (Node.list ns).parts = ns := List.append_nil ns

theorem parts_tuple (ns : List Node) : (Node.tuple ns).parts = ns := List.append_nil ns

theorem parts_record (fs : List (String × Node)) : (Node.record fs).parts = fs.map Prod.snd := List.append_nil _

theorem parts_update (r : String) (fs : List (String × Node)) : (Node.update r fs).parts = fs.map Prod.snd :=
  List.append_nil _

theorem sizeOf_lt_of_mem_map {α β : Type} [SizeOf α] [SizeOf β] {f : α → β} (hf : ∀ x, sizeOf (f x) < sizeOf x)
    {xs : List α} {y : β} (h : y ∈ xs.map f) : sizeOf y < sizeOf xs := by
  obtain ⟨x, hx, rfl⟩ := List.mem_map.1 h
  exact Nat.lt_trans (hf x) (List.sizeOf_lt_of_mem hx)

theorem sizeOf_fst_lt (b : Node × Node) : sizeOf b.1 < sizeOf b := by
  rcases b with ⟨p, b⟩
  simp +arith

theorem sizeOf_snd_lt {α : Type} [SizeOf α] (b : α × Node) : sizeOf b.2 < sizeOf b := by
  rcases b with ⟨p, b⟩
  simp +arith

theorem sizeOf_lt_of_mem_parts {m n : Node} (h : m ∈ n.parts) : sizeOf m < sizeOf n := by
  cases n with
  | call f ns =>
    have hm := List.sizeOf_lt_of_mem (mem_parts_call.1 h)
    rw [call.sizeOf_spec]
    omega
  | list ns =>
    have hm := List.sizeOf_lt_of_mem (parts_list ns ▸ h)
    rw [list.sizeOf_spec]
    omega
  | tuple ns =>
    have hm := List.sizeOf_lt_of_mem (parts_tuple ns ▸ h)
    rw [tuple.sizeOf_spec]
    omega
  | record fs =>
    have hm := sizeOf_lt_of_mem_map sizeOf_snd_lt (parts_record fs ▸ h)
    rw [record.sizeOf_spec]
    omega
  | update r fs =>
    have hm := sizeOf_lt_of_mem_map sizeOf_snd_lt (parts_update r fs ▸ h)
    rw [update.sizeOf_spec]
    omega
  | case s bs ty =>
    rw [case.sizeOf_spec]
    rcases List.mem_append.1 h with h | h
    · rcases List.mem_cons.1 h with rfl | h
      · omega
      · have hm := sizeOf_lt_of_mem_map sizeOf_fst_lt h
        omega
    · have hm := sizeOf_lt_of_mem_map sizeOf_snd_lt h
      omega
  | _ => cases h

/-- What holds of code whenever it holds of its parts holds of all code. -/
theorem parts_induction {P : Node → Prop} (h : ∀ n, (∀ m ∈ n.parts, P m) → P n) (n : Node) : P n :=
  h n fun m hm =>
    have := sizeOf_lt_of_mem_parts hm
    parts_induction h m
termination_by sizeOf n

/-- Where code stands in an expression: in tail position, with nothing of the expression after it, or before
another part of it. -/
inductive Position where
  | tail
  | inner

/-- The code in an expression, and where it stands. -/
inductive Occurs (b : Node) : Position → Node → Prop
  | whole : Occurs b .tail b
  | tail {p : Position} {n m : Node} (h : Occurs b p n) (hm : m ∈ n.tailParts) : Occurs b p m
  | inner {p : Position} {n m : Node} (h : Occurs b p n) (hm : m ∈ n.innerParts) : Occurs b .inner m

namespace Occurs

variable {b m n : Node} {p : Position}

theorem of_tail (hm : m ∈ b.tailParts) (h : Occurs m p n) : Occurs b p n := by
  induction h with
  | whole => exact .tail .whole hm
  | tail _ hn ih => exact .tail ih hn
  | inner _ hn ih => exact .inner ih hn

theorem of_inner (hm : m ∈ b.innerParts) (h : Occurs m p n) : Occurs b .inner n := by
  induction h with
  | whole => exact .inner .whole hm
  | tail _ hn ih => exact .tail ih hn
  | inner _ hn ih => exact .inner ih hn

end Occurs

/-- Code that can be the body of a function: expressions, with cases only in tail position and none void. -/
structure IsBody (b : Node) : Prop where
  expressions : ∀ p n, Occurs b p n → n.isExpression
  cases_tail : ∀ n, Occurs b .inner n → ¬ n.isCase
  not_void : ∀ p n, Occurs b p n → ¬ n.isVoid

theorem isInline_iff {n : Node} : n.IsInline ↔ n.isExpression ∧ ¬ n.isCase ∧ ∀ m ∈ n.parts, m.IsInline := by
  constructor
  · intro h
    cases h with
    | call h => exact ⟨rfl, Bool.false_ne_true, fun m hm => h m (mem_parts_call.1 hm)⟩
    | list h => exact ⟨rfl, Bool.false_ne_true, by rwa [parts_list]⟩
    | tuple h => exact ⟨rfl, Bool.false_ne_true, by rwa [parts_tuple]⟩
    | record h => exact ⟨rfl, Bool.false_ne_true, by rwa [parts_record, List.forall_mem_map]⟩
    | update h => exact ⟨rfl, Bool.false_ne_true, by rwa [parts_update, List.forall_mem_map]⟩
    | _ => exact ⟨rfl, Bool.false_ne_true, fun m hm => nomatch hm⟩
  · rintro ⟨hexpression, hcase, h⟩
    cases n with
    | var => exact .var
    | access => exact .access
    | str => exact .str
    | wildcard => exact .wildcard
    | call => exact .call fun m hm => h m (mem_parts_call.2 hm)
    | list ns => exact .list (parts_list ns ▸ h)
    | tuple ns => exact .tuple (parts_tuple ns ▸ h)
    | record fs => exact .record (List.forall_mem_map.1 (parts_record fs ▸ h))
    | update r fs => exact .update (List.forall_mem_map.1 (parts_update r fs ▸ h))
    | case => exact absurd rfl hcase
    | _ => cases hexpression

theorem isInline_iff_occurs {b : Node} :
    b.IsInline ↔ ∀ p n, Occurs b p n → n.isExpression ∧ ¬ n.isCase := by
  constructor
  · intro h p n hn
    have hinline : n.IsInline := by
      induction hn with
      | whole => exact h
      | tail _ hm ih => exact (isInline_iff.1 ih).2.2 _ (List.mem_append_right _ hm)
      | inner _ hm ih => exact (isInline_iff.1 ih).2.2 _ (List.mem_append_left _ hm)
    obtain ⟨hexpression, hcase, -⟩ := isInline_iff.1 hinline
    exact ⟨hexpression, hcase⟩
  · induction b using parts_induction with
    | h b ih =>
      intro h
      obtain ⟨hexpression, hcase⟩ := h _ _ .whole
      refine isInline_iff.2 ⟨hexpression, hcase, fun m hm => ih m hm fun p n hn => ?_⟩
      rcases List.mem_append.1 hm with hm | hm
      · exact h _ _ (hn.of_inner hm)
      · exact h _ _ (hn.of_tail hm)

theorem inlineText_ok_iff {n : Node} : (∃ t, n.inlineText = .ok t) ↔ n.IsInline := by
  refine ⟨?_, inlineText_ok⟩
  induction n using parts_induction with
  | h n ih =>
    intro h
    cases n with
    | var => exact .var
    | access => exact .access
    | str => exact .str
    | wildcard => exact .wildcard
    | call f ns =>
      have hns := inlineArgs_ok_iff.1 (bind_pure_ok_iff.1 h)
      exact .call fun n hn => ih n (mem_parts_call.2 hn) (hns n hn)
    | list ns =>
      rw [parts_list] at ih
      cases ns with
      | nil => exact .list fun n hn => nomatch hn
      | cons n ns =>
        have hns := inlineAll_ok_iff.1 (bind_pure_ok_iff.1 h)
        exact .list fun n hn => ih n hn (hns n hn)
    | tuple ns =>
      rw [parts_tuple] at ih
      have hns := inlineAll_ok_iff.1 (bind_pure_ok_iff.1 h)
      exact .tuple fun n hn => ih n hn (hns n hn)
    | record fs =>
      rw [parts_record, List.forall_mem_map] at ih
      cases fs with
      | nil => exact .record fun f hf => nomatch hf
      | cons f fs =>
        have hfs := inlineFields_ok_iff.1 (bind_pure_ok_iff.1 h)
        exact .record fun f hf => ih f hf (hfs f hf)
    | update r fs =>
      rw [parts_update, List.forall_mem_map] at ih
      have hfs := inlineFields_ok_iff.1 (bind_pure_ok_iff.1 h)
      exact .update fun f hf => ih f hf (hfs f hf)
    | _ => exact absurd h not_exists_ok

/-! ### Bodies of functions -/

theorem isCase_of_isVoid {n : Node} (h : n.isVoid) : n.isCase := by
  cases n with
  | case => rfl
  | _ => cases h

theorem Occurs.split {b n : Node} {p : Position} (h : Occurs b p n) : (p = .tail ∧ n = b) ∨
    (∃ m ∈ b.tailParts, Occurs m p n) ∨ (p = .inner ∧ ∃ m ∈ b.innerParts, ∃ p', Occurs m p' n) := by
  induction h with
  | whole => exact .inl ⟨rfl, rfl⟩
  | @tail p n m _ hm ih =>
    obtain ⟨rfl, rfl⟩ | ⟨k, hk, ho⟩ | ⟨rfl, k, hk, p', ho⟩ := ih
    · exact .inr (.inl ⟨m, hm, .whole⟩)
    · exact .inr (.inl ⟨k, hk, .tail ho hm⟩)
    · exact .inr (.inr ⟨rfl, k, hk, p', .tail ho hm⟩)
  | @inner p n m _ hm ih =>
    obtain ⟨rfl, rfl⟩ | ⟨k, hk, ho⟩ | ⟨rfl, k, hk, p', ho⟩ := ih
    · exact .inr (.inr ⟨rfl, m, hm, _, .whole⟩)
    · exact .inr (.inl ⟨k, hk, .inner ho hm⟩)
    · exact .inr (.inr ⟨rfl, k, hk, _, .inner ho hm⟩)

theorem isBody_iff {b : Node} : b.IsBody ↔
    b.isExpression ∧ ¬ b.isVoid ∧ (∀ m ∈ b.innerParts, m.IsInline) ∧ ∀ m ∈ b.tailParts, m.IsBody := by
  constructor
  · intro h
    refine ⟨h.expressions _ _ .whole, h.not_void _ _ .whole, fun m hm => ?_, fun m hm => ?_⟩
    · exact isInline_iff_occurs.2 fun p n hn =>
        ⟨h.expressions _ _ (hn.of_inner hm), h.cases_tail _ (hn.of_inner hm)⟩
    · exact ⟨fun p n hn => h.expressions _ _ (hn.of_tail hm), fun n hn => h.cases_tail _ (hn.of_tail hm),
        fun p n hn => h.not_void _ _ (hn.of_tail hm)⟩
  · rintro ⟨hexpression, hvoid, hinner, htail⟩
    have hin {m n : Node} {p : Position} (hm : m ∈ b.innerParts) (hn : Occurs m p n) :
        n.isExpression ∧ ¬ n.isCase :=
      isInline_iff_occurs.1 (hinner m hm) p n hn
    refine ⟨fun p n hn => ?_, fun n hn => ?_, fun p n hn => ?_⟩
    · obtain ⟨-, rfl⟩ | ⟨m, hm, ho⟩ | ⟨-, m, hm, p', ho⟩ := hn.split
      · exact hexpression
      · exact (htail m hm).expressions p n ho
      · exact (hin hm ho).1
    · obtain ⟨h, -⟩ | ⟨m, hm, ho⟩ | ⟨-, m, hm, p', ho⟩ := hn.split
      · cases h
      · exact (htail m hm).cases_tail n ho
      · exact (hin hm ho).2
    · obtain ⟨-, rfl⟩ | ⟨m, hm, ho⟩ | ⟨-, m, hm, p', ho⟩ := hn.split
      · exact hvoid
      · exact (htail m hm).not_void p n ho
      · exact fun h => (hin hm ho).2 (isCase_of_isVoid h)

theorem isBody_iff_isInline {b : Node} (hcase : ¬ b.isCase) (htail : ∀ m ∈ b.tailParts, m.IsBody ↔ m.IsInline) :
    b.IsBody ↔ b.IsInline := by
  rw [isBody_iff, isInline_iff]
  constructor
  · rintro ⟨hexpression, -, hinner, hbodies⟩
    refine ⟨hexpression, hcase, fun m hm => ?_⟩
    rcases List.mem_append.1 hm with hm | hm
    · exact hinner m hm
    · exact (htail m hm).1 (hbodies m hm)
  · rintro ⟨hexpression, -, h⟩
    refine ⟨hexpression, fun hvoid => hcase (isCase_of_isVoid hvoid), fun m hm => ?_, fun m hm => ?_⟩
    · exact h m (List.mem_append_left _ hm)
    · exact (htail m hm).2 (h m (List.mem_append_right _ hm))

theorem lastIsMultiline_eq (ns : List Node) : lastIsMultiline ns = ns.getLast?.any isMultiline := by
  induction ns with
  | nil => rfl
  | cons n ns ih =>
    cases ns with
    | nil => rfl
    | cons n' ns =>
      rw [List.getLast?_cons_cons]
      exact ih

/-- Code that takes one line has no place for a case. -/
theorem isBody_iff_isInline_of_not_isMultiline {b : Node} (h : ¬ b.isMultiline) : b.IsBody ↔ b.IsInline := by
  induction b using parts_induction with
  | h b ih =>
    cases b with
    | call f ns =>
      refine isBody_iff_isInline Bool.false_ne_true fun m hm =>
        ih m (List.mem_append_right _ hm) fun hmulti => h ?_
      rw [isMultiline, lastIsMultiline_eq, Option.any_eq_true]
      exact ⟨m, by simpa [tailParts] using hm, hmulti⟩
    | case => exact absurd rfl h
    | _ => exact isBody_iff_isInline Bool.false_ne_true fun m hm => nomatch hm

section

variable {i : Nat} {n : Node} {ns : List Node} {bs : List (Node × Node)}

theorem line_ok_iff :
    (∃ ls, (do return [⟨i, ← n.inlineText⟩] : Except LayoutError (List Line)) = .ok ls) ↔ n.IsInline :=
  bind_pure_ok_iff.trans inlineText_ok_iff

theorem blockArgs_concat (ns : List Node) (l : Node) : blockArgs i (ns ++ [l]) = do
    let heads ← inlineArgs ns
    let lines ← l.blockLines i
    return (heads, lines) := by
  induction ns with
  | nil => rfl
  | cons n ns ih =>
    rw [List.cons_append, blockArgs, ih, inlineArgs]
    · cases n.inlineText with
      | error e => rfl
      | ok t =>
        cases inlineArgs ns with
        | error e => rfl
        | ok heads => cases l.blockLines i <;> rfl
    · simp

theorem blockArgs_ok_iff {ns : List Node} : (∃ r, blockArgs i ns = .ok r) ↔
    (∀ n ∈ ns.dropLast, n.IsInline) ∧ ∀ n ∈ ns.getLast?.toList, ∃ ls, n.blockLines i = .ok ls := by
  rcases ns.eq_nil_or_concat' with rfl | ⟨ns, l, rfl⟩
  · exact iff_of_true ⟨([], []), rfl⟩ (by simp)
  · rw [blockArgs_concat, List.dropLast_concat, List.getLast?_concat, Option.toList_some,
      List.forall_mem_singleton]
    refine (bind_ok_iff fun _ => bind_pure_ok_iff).trans (and_congr_left' ?_)
    exact inlineArgs_ok_iff.trans (forall₂_congr fun _ _ => inlineText_ok_iff)

theorem branchLines_ok_iff {bs : List (Node × Node)} : (∃ bls, branchLines i bs = .ok bls) ↔
    (∀ b ∈ bs, b.1.IsInline) ∧ ∀ b ∈ bs, ∃ ls, b.2.blockLines (i + indentStep) = .ok ls := by
  induction bs with
  | nil => exact iff_of_true ⟨_, rfl⟩ (by simp)
  | cons b bs ih =>
    rw [branchLines, bind_ok_iff fun _ => bind_ok_iff fun _ => bind_pure_ok_iff, inlineText_ok_iff, ih,
      List.forall_mem_cons, List.forall_mem_cons]
    exact ⟨fun ⟨hp, hb, hps, hbs⟩ => ⟨⟨hp, hps⟩, hb, hbs⟩, fun ⟨⟨hp, hps⟩, hb, hbs⟩ => ⟨hp, hb, hps, hbs⟩⟩

end

theorem blockLines_ok_iff (b : Node) : ∀ i, (∃ ls, b.blockLines i = .ok ls) ↔ b.IsBody := by
  induction b using parts_induction with
  | h b ih =>
    intro i
    have hline (h : ¬ b.isMultiline) : (∃ ls, (do return [⟨i, ← b.inlineText⟩] :
        Except LayoutError (List Line)) = .ok ls) ↔ b.IsBody :=
      line_ok_iff.trans (isBody_iff_isInline_of_not_isMultiline h).symm
    have htail (j : Nat) : (∀ m ∈ b.tailParts, ∃ ls, m.blockLines j = .ok ls) ↔ ∀ m ∈ b.tailParts, m.IsBody :=
      forall₂_congr fun m hm => ih m (List.mem_append_right _ hm) j
    cases b with
    | call f ns =>
      rw [blockLines]
      split
      next =>
        rw [isBody_iff, ← htail (i + indentStep)]
        refine bind_pure_ok_iff.trans (blockArgs_ok_iff.trans ?_)
        exact ⟨fun h => ⟨rfl, Bool.false_ne_true, h⟩, fun h => h.2.2⟩
      next h => exact hline h
    | list ns =>
      rw [blockLines]
      split
      next =>
        rw [isBody_iff]
        simp only [bind_pure_ok_iff, inlineAll_ok_iff, inlineText_ok_iff]
        exact ⟨fun h => ⟨rfl, Bool.false_ne_true, h, fun m hm => nomatch hm⟩, fun h => h.2.2.1⟩
      next h => exact hline (by simpa [isMultiline] using h)
    | record fs =>
      rw [blockLines]
      split
      next =>
        rw [isBody_iff, innerParts, List.forall_mem_map]
        simp only [bind_pure_ok_iff, inlineFields_ok_iff, inlineText_ok_iff]
        exact ⟨fun h => ⟨rfl, Bool.false_ne_true, h, fun m hm => nomatch hm⟩, fun h => h.2.2.1⟩
      next h => exact hline (by simpa [isMultiline] using h)
    | case s bs ty =>
      have hinner : (∀ m ∈ (Node.case s bs ty).innerParts, m.IsInline) ↔ s.IsInline ∧ ∀ b ∈ bs, b.1.IsInline := by
        rw [innerParts, List.forall_mem_cons, List.forall_mem_map]
      cases bs with
      | nil =>
        cases ty with
        | none => exact iff_of_false not_exists_ok fun h => h.not_void _ _ .whole rfl
        | some t =>
          rw [isBody_iff, hinner]
          refine (bind_pure_ok_iff.trans inlineText_ok_iff).trans ?_
          exact ⟨fun h => ⟨rfl, Bool.false_ne_true, ⟨h, fun b hb => nomatch hb⟩, fun m hm => nomatch hm⟩,
            fun h => h.2.2.1.1⟩
      | cons b bs =>
        rw [isBody_iff, hinner, ← htail (i + indentStep + indentStep), tailParts, List.forall_mem_map, and_assoc,
          ← branchLines_ok_iff, ← inlineText_ok_iff]
        refine (bind_ok_iff fun _ => bind_pure_ok_iff).trans ?_
        exact ⟨fun h => ⟨rfl, Bool.false_ne_true, h⟩, fun h => h.2.2⟩
    | _ => exact hline Bool.false_ne_true

/-- An expression that has cases, none empty without a type, at most as its body or as the body of a
branch. -/
inductive IsBlock : Node → Prop
  | inline {n : Node} (h : n.IsInline) : IsBlock n
  | case {s : Node} {bs : List (Node × Node)} {ty : Option String} (hs : s.IsInline)
      (hpattern : ∀ b ∈ bs, b.1.IsInline) (hbody : ∀ b ∈ bs, IsBlock b.2) (hne : bs = [] → ty ≠ none) :
      IsBlock (.case s bs ty)

theorem IsInline.isBody {n : Node} (h : n.IsInline) : n.IsBody := by
  have hoccurs := isInline_iff_occurs.1 h
  exact ⟨fun p m hm => (hoccurs p m hm).1, fun m hm => (hoccurs _ m hm).2,
    fun p m hm hvoid => (hoccurs p m hm).2 (isCase_of_isVoid hvoid)⟩

theorem IsBlock.isBody {n : Node} (h : n.IsBlock) : n.IsBody := by
  induction h with
  | inline h => exact h.isBody
  | @case s bs ty hs hpattern _ hne ih =>
    refine isBody_iff.2 ⟨rfl, fun hvoid => ?_, ?_, List.forall_mem_map.2 ih⟩
    · cases bs with
      | nil =>
        cases ty with
        | none => exact hne rfl rfl
        | some t => cases hvoid
      | cons b bs => cases hvoid
    · exact List.forall_mem_cons.2 ⟨hs, List.forall_mem_map.2 hpattern⟩

/-- A type, or a function with a body that can be one. -/
def IsRenderable : Node → Prop
  | .sumType .. => True
  | .recordAlias .. => True
  | .typeAlias .. => True
  | .function _ _ _ b => b.IsBody
  | _ => False

theorem declarationText_ok_iff (d : Node) : (∃ t, declarationText d = .ok t) ↔ d.IsRenderable := by
  rw [declarationText, map_ok_iff]
  cases d with
  | sumType => exact iff_of_true ⟨_, rfl⟩ trivial
  | recordAlias => exact iff_of_true ⟨_, rfl⟩ trivial
  | typeAlias => exact iff_of_true ⟨_, rfl⟩ trivial
  | function f ty ps b => exact bind_pure_ok_iff.trans (blockLines_ok_iff b indentStep)
  | _ => exact iff_of_false not_exists_ok id

end Node

/-- A declaration has a text exactly if it is a type, or a function whose body is made of expressions, has cases
only in tail position and none that is void; otherwise there is a complaint. A module has a text exactly if each of
its declarations has one; otherwise there is the complaint about the first that has none. -/
theorem layout_ok_iff :
    (∀ d : Node, (∃ t, declarationText d = .ok t) ↔ d.IsRenderable) ∧
      (∀ d : Node, (∃ e, declarationText d = .error e) ↔ ¬ d.IsRenderable) ∧
      (∀ M : Module, (∃ t, M.text = .ok t) ↔ ∀ d ∈ M.declarations, ∃ t, declarationText d = .ok t) ∧
      ∀ (M : Module) (e : LayoutError), M.text = .error e ↔ ∃ done d rest, M.declarations = done ++ d :: rest ∧
        (∀ c ∈ done, ∃ t, declarationText c = .ok t) ∧ declarationText d = .error e := by
  refine ⟨Node.declarationText_ok_iff, fun d => ?_, fun M => bind_pure_ok_iff.trans mapM_ok_iff, fun M e => ?_⟩
  · rw [← Node.declarationText_ok_iff]
    cases declarationText d with
    | error e => exact iff_of_true ⟨e, rfl⟩ not_exists_ok
    | ok t => exact iff_of_false (fun h => nomatch h) fun h => h ⟨t, rfl⟩
  · exact bind_pure_eq_error_iff.trans mapM_eq_error_iff

end TypedAssets.Code
