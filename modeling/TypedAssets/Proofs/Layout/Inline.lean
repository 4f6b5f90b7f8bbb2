import TypedAssets.Code.Layout.Inline
import TypedAssets.Proofs.Layout.Embedding
import TypedAssets.Proofs.Layout.Strings

/-!
# Expressions on one line

Every expression without a case has a text on one line (`inlineText_ok`). That text embeds the strings of
the expression, in order; no mark stands in the code between them unless one is in a name
(`NamedWithout.inlineText`).
-/

namespace TypedAssets.Code

open Text

theorem intercalate_cons_eq_append {α : Type} (s x : List α) (xs : List (List α)) :
    s.intercalate (x :: xs) = x ++ (xs.map (s ++ ·)).flatten := by
  induction xs generalizing x with
  | nil => simp
  | cons y xs ih => simp [List.intercalate_cons_cons, ih]

namespace Node

theorem inlineAll_eq_mapM (ns : List Node) : inlineAll ns = ns.mapM inlineText := by
  induction ns with
  | nil => rfl
  | cons n ns ih => rw [inlineAll, List.mapM_cons, ih]

theorem inlineArgs_eq_mapM (ns : List Node) :
    inlineArgs ns = ns.mapM fun n => n.asArgument <$> n.inlineText := by
  induction ns with
  | nil => rfl
  | cons n ns ih =>
    rw [inlineArgs, List.mapM_cons, ih]
    cases n.inlineText <;> rfl

theorem inlineFields_eq_mapM (fs : List (String × Node)) :
    inlineFields fs = fs.mapM fun f => (f.1, ·) <$> f.2.inlineText := by
  induction fs with
  | nil => rfl
  | cons f fs ih =>
    rw [inlineFields, List.mapM_cons, ih]
    cases f.2.inlineText <;> rfl

theorem inlineAll_ok_iff {ns : List Node} :
    (∃ ts, inlineAll ns = .ok ts) ↔ ∀ n ∈ ns, ∃ t, n.inlineText = .ok t := by
  rw [inlineAll_eq_mapM]
  exact mapM_ok_iff

theorem inlineArgs_ok_iff {ns : List Node} :
    (∃ ts, inlineArgs ns = .ok ts) ↔ ∀ n ∈ ns, ∃ t, n.inlineText = .ok t := by
  rw [inlineArgs_eq_mapM]
  exact mapM_ok_iff.trans (forall₂_congr fun _ _ => map_ok_iff)

theorem inlineFields_ok_iff {fs : List (String × Node)} :
    (∃ ts, inlineFields fs = .ok ts) ↔ ∀ f ∈ fs, ∃ t, f.2.inlineText = .ok t := by
  rw [inlineFields_eq_mapM]
  exact mapM_ok_iff.trans (forall₂_congr fun _ _ => map_ok_iff)

/-- An expression without a case in it. -/
inductive IsInline : Node → Prop
  | var {x : String} : IsInline (.var x)
  | access {r x : String} : IsInline (.access r x)
  | str {s : String} : IsInline (.str s)
  | wildcard : IsInline .wildcard
  | call {f : String} {ns : List Node} (h : ∀ n ∈ ns, IsInline n) : IsInline (.call f ns)
  | list {ns : List Node} (h : ∀ n ∈ ns, IsInline n) : IsInline (.list ns)
  | tuple {ns : List Node} (h : ∀ n ∈ ns, IsInline n) : IsInline (.tuple ns)
  | record {fs : List (String × Node)} (h : ∀ f ∈ fs, IsInline f.2) : IsInline (.record fs)
  | update {r : String} {fs : List (String × Node)} (h : ∀ f ∈ fs, IsInline f.2) :
      IsInline (.update r fs)

theorem inlineText_ok {n : Node} (h : n.IsInline) : ∃ t, n.inlineText = .ok t := by
  induction h with
  | var => exact ⟨_, rfl⟩
  | access => exact ⟨_, rfl⟩
  | str => exact ⟨_, rfl⟩
  | wildcard => exact ⟨_, rfl⟩
  | @call f ns _ ih =>
    obtain ⟨ts, hts⟩ := inlineArgs_ok_iff.2 ih
    exact ⟨spaced f ts, bind_eq_ok_iff.2 ⟨ts, hts, rfl⟩⟩
  | @list ns _ ih =>
    obtain ⟨ts, hts⟩ := inlineAll_ok_iff.2 ih
    cases ns with
    | nil => exact ⟨_, rfl⟩
    | cons n ns => exact ⟨_, bind_eq_ok_iff.2 ⟨ts, hts, rfl⟩⟩
  | tuple _ ih =>
    obtain ⟨ts, hts⟩ := inlineAll_ok_iff.2 ih
    exact ⟨_, bind_eq_ok_iff.2 ⟨ts, hts, rfl⟩⟩
  | @record fs _ ih =>
    obtain ⟨ts, hts⟩ := inlineFields_ok_iff.2 ih
    cases fs with
    | nil => exact ⟨_, rfl⟩
    | cons f fs => exact ⟨_, bind_eq_ok_iff.2 ⟨ts, hts, rfl⟩⟩
  | update _ ih =>
    obtain ⟨ts, hts⟩ := inlineFields_ok_iff.2 ih
    exact ⟨_, bind_eq_ok_iff.2 ⟨ts, hts, rfl⟩⟩

/-- An expression with no mark in a name or in the type of a case. What string literals stand for is
free. -/
inductive NamedWithout (q : Mark) : Node → Prop
  | var {x : String} (hx : Without q x) : NamedWithout q (.var x)
  | access {r x : String} (hr : Without q r) (hx : Without q x) : NamedWithout q (.access r x)
  | str {s : String} : NamedWithout q (.str s)
  | wildcard : NamedWithout q .wildcard
  | call {f : String} {ns : List Node} (hf : Without q f) (h : ∀ n ∈ ns, NamedWithout q n) :
      NamedWithout q (.call f ns)
  | list {ns : List Node} (h : ∀ n ∈ ns, NamedWithout q n) : NamedWithout q (.list ns)
  | tuple {ns : List Node} (h : ∀ n ∈ ns, NamedWithout q n) : NamedWithout q (.tuple ns)
  | record {fs : List (String × Node)} (hfs : ∀ f ∈ fs, Without q f.1)
      (h : ∀ f ∈ fs, NamedWithout q f.2) : NamedWithout q (.record fs)
  | update {r : String} {fs : List (String × Node)} (hr : Without q r) (hfs : ∀ f ∈ fs, Without q f.1)
      (h : ∀ f ∈ fs, NamedWithout q f.2) : NamedWithout q (.update r fs)
  | case {s : Node} {bs : List (Node × Node)} {ty : Option String} (hs : NamedWithout q s)
      (hpattern : ∀ b ∈ bs, NamedWithout q b.1) (hbody : ∀ b ∈ bs, NamedWithout q b.2)
      (hty : ∀ t ∈ ty, Without q t) : NamedWithout q (.case s bs ty)

section

variable {q : Mark}

theorem embeds_asArgument {n : Node} {t k : String} {ss : List String} (h : Embeds q ss t k) :
    Embeds q ss (n.asArgument t) (n.emptied.asArgument k) := by
  rw [asArgument_emptied, asArgument, asArgument]
  split
  · exact (h.after (by cases q <;> decide)).before (by cases q <;> decide)
  · exact h

theorem embeds_spaced {f : String} {ss ts ks : List String} (hf : Without q f) (h : EmbedsAll q ss ts ks) :
    Embeds q ss (spaced f ts) (spaced f ks) :=
  EmbedsAll.intercalate (by cases q <;> decide) (.cons (.code hf) h)

/-- Items after commas, between brackets. -/
theorem embeds_enclosed {left right : String} {ss ts ks : List String} (hl : Without q left)
    (h : EmbedsAll q ss ts ks) (hr : Without q right) :
    Embeds q ss (left ++ ", ".intercalate ts ++ right) (left ++ ", ".intercalate ks ++ right) :=
  ((h.intercalate (by cases q <;> decide)).after hl).before hr

variable {ns : List Node} {fs : List (String × Node)}

theorem follows_inlineAll (h : ∀ n ∈ ns, Follows (Embeds q n.strings) n.inlineText n.emptied.inlineText) :
    Follows (EmbedsAll q (stringsAll ns)) (inlineAll ns) (inlineAll (emptiedAll ns)) := by
  rw [inlineAll_eq_mapM, inlineAll_eq_mapM, emptiedAll_eq, stringsAll_eq]
  exact EmbedsAll.of_mapM h

theorem follows_inlineArgs (h : ∀ n ∈ ns, Follows (Embeds q n.strings) n.inlineText n.emptied.inlineText) :
    Follows (EmbedsAll q (stringsAll ns)) (inlineArgs ns) (inlineArgs (emptiedAll ns)) := by
  rw [inlineArgs_eq_mapM, inlineArgs_eq_mapM, emptiedAll_eq, stringsAll_eq]
  exact EmbedsAll.of_mapM fun n hn => (h n hn).map fun _ _ => embeds_asArgument

/-- A field and the text of its value, as a record writes them. -/
def assigned (f : String × String) : String := f.1 ++ " = " ++ f.2

theorem map_inlineFields (fs : List (String × Node)) : List.map assigned <$> inlineFields fs =
    fs.mapM fun f => (f.1 ++ " = " ++ ·) <$> f.2.inlineText := by
  induction fs with
  | nil => rfl
  | cons f fs ih =>
    rw [inlineFields, List.mapM_cons, ← ih]
    cases f.2.inlineText with
    | error e => rfl
    | ok t => cases inlineFields fs <;> rfl

theorem follows_inlineFields (hfs : ∀ f ∈ fs, Without q f.1)
    (h : ∀ f ∈ fs, Follows (Embeds q f.2.strings) f.2.inlineText f.2.emptied.inlineText) :
    Follows (fun ts ks => EmbedsAll q (stringsFields fs) (ts.map assigned) (ks.map assigned))
      (inlineFields fs) (inlineFields (emptiedFields fs)) := by
  refine Follows.of_map ?_
  rw [map_inlineFields, map_inlineFields, emptiedFields_eq, stringsFields_eq]
  refine EmbedsAll.of_mapM fun f hf => (h f hf).map fun t k htk => htk.after ?_
  exact without_append.2 ⟨hfs f hf, by cases q <;> decide⟩

theorem NamedWithout.inlineText {n : Node} (h : n.NamedWithout q) :
    Follows (Embeds q n.strings) n.inlineText n.emptied.inlineText := by
  induction h with
  | var hx => exact .ok (.code hx)
  | access hr hx =>
    exact .ok (.code (without_append.2 ⟨without_append.2 ⟨hr, by cases q <;> decide⟩, hx⟩))
  | @str s => exact .ok (.literal s)
  | wildcard => exact .ok (.code (by cases q <;> decide))
  | call hf _ ih => exact (follows_inlineArgs ih).bind fun _ _ hall => .ok (embeds_spaced hf hall)
  | @list ns _ ih =>
    cases ns with
    | nil => exact .ok (.code (by cases q <;> decide))
    | cons n ns =>
      refine (follows_inlineAll ih).bind fun _ _ hall => .ok ?_
      exact embeds_enclosed (by cases q <;> decide) hall (by cases q <;> decide)
  | tuple _ ih =>
    refine (follows_inlineAll ih).bind fun _ _ hall => .ok ?_
    exact embeds_enclosed (by cases q <;> decide) hall (by cases q <;> decide)
  | @record fs hfs _ ih =>
    cases fs with
    | nil => exact .ok (.code (by cases q <;> decide))
    | cons f fs =>
      refine (follows_inlineFields hfs ih).bind fun _ _ hall => .ok ?_
      exact embeds_enclosed (by cases q <;> decide) hall (by cases q <;> decide)
  | @update r _ hr hfs _ ih =>
    have hhead : Without q ("\x7b " ++ r ++ " | ") :=
      without_append.2 ⟨without_append.2 ⟨by cases q <;> decide, hr⟩, by cases q <;> decide⟩
    refine (follows_inlineFields hfs ih).bind fun _ _ hall => .ok ?_
    exact embeds_enclosed hhead hall (by cases q <;> decide)
  | case => exact fun _ h => nomatch h

end

end Node

end TypedAssets.Code
