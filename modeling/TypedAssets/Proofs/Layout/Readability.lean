import TypedAssets.Proofs.Layout.Acceptance
import TypedAssets.Proofs.Layout.Reader

/-!
# Expressions told by their text

An expression whose names are identifiers can be read back from its text on one line (`Identified.isReadable`).
Only a call without arguments reads as a variable, as it is written like one; so two expressions have the same text
exactly if they are the same up to that (`inlineText_eq_iff`).
-/

namespace TypedAssets.Code

namespace Node

mutual

/-- An expression on one line, with each call without arguments as a variable. -/
def plain : Node → Node
  | .call f ns => if ns.isEmpty then .var f else .call f (plainAll ns)
  | .list ns => .list (plainAll ns)
  | .tuple ns => .tuple (plainAll ns)
  | .record fs => .record (plainFields fs)
  | .update r fs => .update r (plainFields fs)
  | n => n
termination_by structural n => n

def plainAll : List Node → List Node
  | [] => []
  | n :: ns => n.plain :: plainAll ns
termination_by structural ns => ns

def plainFields : List (String × Node) → List (String × Node)
  | [] => []
  | (x, n) :: fs => (x, n.plain) :: plainFields fs
termination_by structural fs => fs

end

theorem plainAll_eq (ns : List Node) : plainAll ns = ns.map plain := by
  induction ns with
  | nil => rfl
  | cons n ns ih => rw [plainAll, ih, List.map_cons]

theorem plainFields_eq (fs : List (String × Node)) : plainFields fs = fs.map fun f => (f.1, f.2.plain) := by
  induction fs with
  | nil => rfl
  | cons f fs ih => rw [plainFields, ih, List.map_cons]

/-- An expression on one line whose names are identifiers. What string literals stand for is free. -/
inductive Identified : Node → Prop
  | var {x : String} (hx : IsIdentifier x) : Identified (.var x)
  | access {r x : String} (hr : IsIdentifier r) (hx : IsIdentifier x) : Identified (.access r x)
  | str {s : String} : Identified (.str s)
  | wildcard : Identified .wildcard
  | call {f : String} {ns : List Node} (hf : IsIdentifier f) (h : ∀ n ∈ ns, Identified n) : Identified (.call f ns)
  | list {ns : List Node} (h : ∀ n ∈ ns, Identified n) : Identified (.list ns)
  | tuple {ns : List Node} (h : ∀ n ∈ ns, Identified n) : Identified (.tuple ns)
  | record {fs : List (String × Node)} (hfs : ∀ f ∈ fs, IsIdentifier f.1) (h : ∀ f ∈ fs, Identified f.2) :
      Identified (.record fs)
  | update {r : String} {fs : List (String × Node)} (hr : IsIdentifier r) (hfs : ∀ f ∈ fs, IsIdentifier f.1)
      (h : ∀ f ∈ fs, Identified f.2) : Identified (.update r fs)

section

variable {k : Nat} {r : List Char} {x f : String}

theorem not_isNameChar_of_ends (h : ends r) : ∀ c ∈ r.head?, ¬ Schema.isNameChar c := by
  rcases ends_cases h with rfl | ⟨cs, rfl | rfl | rfl⟩ <;> simp [Schema.isNameChar]

theorem readReference_var (hx : IsIdentifier x) (hr : ends r) :
    readReference (x.toList ++ r) = some (.var x, r) := by
  rw [readReference, readName_append hx (not_isNameChar_of_ends hr)]
  rcases ends_cases hr with rfl | ⟨cs, rfl | rfl | rfl⟩ <;> rfl

theorem readReference_access (hx : IsIdentifier x) (hf : IsIdentifier f) (hr : ends r) :
    readReference ((x ++ "." ++ f).toList ++ r) = some (.access x f, r) := by
  have hdot : (x ++ "." ++ f).toList ++ r = x.toList ++ '.' :: (f.toList ++ r) := by simp
  rw [hdot, readReference, readName_append hx (by simp [Schema.isNameChar])]
  show (readName (f.toList ++ r) >>= _) = _
  rw [readName_append hf (not_isNameChar_of_ends hr)]
  rfl

theorem readAtom_of_not_isAlpha {c : Char} (hc : ¬ c.isAlpha) (cs : List Char) :
    readAtom (k + 1) (c :: cs) = readEnclosed (readExpression k) k (c :: cs) := by
  have hnone : readReference (c :: cs) = none := by
    rw [readReference, readName, if_neg (by simpa using hc)]
    rfl
  rw [readAtom, hnone]
  rfl

theorem readAfter_of_closes (hr : closes r) : readAfter [' '] (readAtom k) r = none := by
  have hnone {c : Char} (hc : c = ']' ∨ c = ')' ∨ c = '\x7d') (cs : List Char) : readAtom k (c :: cs) = none := by
    cases k with
    | zero => rfl
    | succ k => obtain rfl | rfl | rfl := hc <;> rfl
  unfold closes at hr
  split at hr
  next c cs =>
    exact hnone (by simpa [or_assoc] using hr) cs
  next r hspace =>
    rcases ends_cases hr with rfl | ⟨cs, rfl | rfl | rfl⟩
    · rfl
    · cases cs with
      | nil => cases k <;> rfl
      | cons c cs => exact absurd rfl (hspace c cs)
    · rfl
    · rfl

theorem readsBack_expression {t : List Char} {n : Node} (h : ReadsBack (readAtom k) ends t n) :
    ReadsBack (readExpression k) closes t n := by
  intro r hr
  rw [readExpression, readApplied, h r (ends_of_closes hr)]
  cases n with
  | var f => simp [readMany_of_none (readAfter_of_closes hr)]
  | _ => rfl

theorem readsBack_var (hx : IsIdentifier x) : ReadsBack (readAtom (k + 1)) ends x.toList (.var x) := by
  intro r hr
  rw [readAtom, readReference_var hx hr]
  rfl

theorem readsBack_access (hx : IsIdentifier x) (hf : IsIdentifier f) :
    ReadsBack (readAtom (k + 1)) ends (x ++ "." ++ f).toList (.access x f) := by
  intro r hr
  rw [readAtom, readReference_access hx hf hr]
  rfl

theorem readsBack_str (s : String) : ReadsBack (readAtom (k + 1)) ends (literal s).toList (.str s) := by
  intro r _
  rw [toList_literal, List.cons_append, List.append_assoc, readAtom_of_not_isAlpha (by decide), readEnclosed]
  rw [List.singleton_append, readLiteral_append]
  simp

theorem readsBack_application {ts : List (List Char)} {ns : List Node} (hf : IsIdentifier f) (hne : ns ≠ [])
    (hns : List.Forall₂ (ReadsBack (readAtom k) ends) ts ns) (hk : ts.length ≤ k) :
    ReadsBack (readExpression k) closes (f.toList ++ (ts.map ([' '] ++ ·)).flatten) (.call f ns) := by
  intro r hr
  have hmany : readMany (readAfter [' '] (readAtom k)) k ((ts.map ([' '] ++ ·)).flatten ++ r) = (ns, r) := by
    refine readMany_append (List.forall₂_map_left_iff.2 (hns.imp fun _ _ h => h.after)) ?_ (ends_of_closes hr)
      (readAfter_of_closes hr) (by rwa [List.length_map])
    exact List.forall_mem_map.2 fun _ _ _ => rfl
  cases hns with
  | nil => exact absurd rfl hne
  | @cons t n ts ns ht hts =>
    obtain ⟨k, rfl⟩ : ∃ j, k = j + 1 := Nat.exists_eq_succ_of_ne_zero (by rintro rfl; cases hk)
    have hhead : ends (((t :: ts).map ([' '] ++ ·)).flatten ++ r) := rfl
    rw [readExpression, readApplied, List.append_assoc, readsBack_var hf _ hhead]
    simp only [Option.bind_eq_bind, Option.bind_some, hmany]
    rfl

section

variable {ts : List String} {ns : List Node} {fs : List (String × Node)}

theorem toList_spaced (f : String) (ts : List String) :
    (spaced f ts).toList = f.toList ++ ((ts.map String.toList).map ([' '] ++ ·)).flatten := by
  rw [spaced, String.toList_intercalate, List.map_cons, intercalate_cons_eq_append]
  rfl

theorem toList_enclosed (left right : String) (ts : List String) :
    (left ++ ", ".intercalate ts ++ right).toList =
      left.toList ++ ([',', ' '].intercalate (ts.map String.toList) ++ right.toList) := by
  simp [String.toList_intercalate]

theorem readExpression_space (cs : List Char) : readExpression k (' ' :: cs) = none := by
  cases k <;> rfl

/-- Items between brackets, if the left bracket is enough to know how to go on. -/
theorem readsBack_enclosed {α : Type} {read : Reader α} {xs : List α} {ts : List (List Char)} {left right : Char}
    {node : List α → Node} (h : List.Forall₂ (ReadsBack read closes) ts xs) (hk : ts.length ≤ k)
    (hleft : ¬ left.isAlpha) (hright : ∀ r, closes (' ' :: right :: r)) (hstop : ∀ r, read (' ' :: r) = none)
    (hread : ∀ r, readEnclosed (readExpression k) k
        (left :: ' ' :: ([',', ' '].intercalate ts ++ ' ' :: right :: r)) = do
      let (xs, r) ← readItems read k right ([',', ' '].intercalate ts ++ ' ' :: right :: r)
      return (node xs, r)) :
    ReadsBack (readAtom (k + 1)) ends (left :: ' ' :: ([',', ' '].intercalate ts ++ [' ', right])) (node xs) := by
  intro r _
  have hitems : readItems read k right ([',', ' '].intercalate ts ++ ' ' :: right :: r) = some (xs, r) :=
    readItems_append h (hright r) (hstop _) hk
  have htext : left :: ' ' :: ([',', ' '].intercalate ts ++ [' ', right]) ++ r =
      left :: ' ' :: ([',', ' '].intercalate ts ++ ' ' :: right :: r) := by simp
  rw [htext, readAtom_of_not_isAlpha hleft, hread, hitems]
  rfl

theorem readsBack_list (h : List.Forall₂ (ReadsBack (readExpression k) closes) (ts.map String.toList) ns)
    (hk : ts.length ≤ k) :
    ReadsBack (readAtom (k + 1)) ends ("[ " ++ ", ".intercalate ts ++ " ]").toList (.list ns) := by
  rw [toList_enclosed]
  show ReadsBack _ _ ('[' :: ' ' :: (_ ++ [' ', ']'])) _
  exact readsBack_enclosed h (by rwa [List.length_map]) (by decide) (fun _ => rfl) readExpression_space
    fun _ => rfl

theorem readsBack_tuple (h : List.Forall₂ (ReadsBack (readExpression k) closes) (ts.map String.toList) ns)
    (hk : ts.length ≤ k) :
    ReadsBack (readAtom (k + 1)) ends ("( " ++ ", ".intercalate ts ++ " )").toList (.tuple ns) := by
  rw [toList_enclosed]
  show ReadsBack _ _ ('(' :: ' ' :: (_ ++ [' ', ')'])) _
  exact readsBack_enclosed h (by rwa [List.length_map]) (by decide) (fun _ => rfl) readExpression_space
    fun _ => rfl

theorem readsBack_field {t : List Char} {n : Node} (hx : IsIdentifier x)
    (h : ReadsBack (readExpression k) closes t n) :
    ReadsBack (readField (readExpression k)) closes (x.toList ++ ([' ', '=', ' '] ++ t)) (x, n) := by
  intro r hr
  rw [readField, List.append_assoc, readName_append hx (by simp [Schema.isNameChar])]
  show (readAfter [' ', '=', ' '] (readExpression k) _ >>= _) = _
  rw [h.after r hr]
  rfl

/-- A record is no update: its first name stands before an equals sign. -/
theorem readUpdate_field (hx : IsIdentifier x) (t : String) (cs : List Char) :
    readUpdate (readExpression k) k ((assigned (x, t)).toList ++ cs) = none := by
  have htext : (assigned (x, t)).toList ++ cs = x.toList ++ ' ' :: '=' :: ' ' :: (t.toList ++ cs) := by
    simp [assigned]
  rw [htext, readUpdate, readName_append hx (by simp [Schema.isNameChar])]
  rfl

theorem readsBack_record {t : String} (hx : IsIdentifier x)
    (h : List.Forall₂ (ReadsBack (readField (readExpression k)) closes)
      ((assigned (x, t) :: ts).map String.toList) fs) (hk : ts.length < k) :
    ReadsBack (readAtom (k + 1)) ends ("\x7b " ++ ", ".intercalate (assigned (x, t) :: ts) ++ " \x7d").toList
      (.record fs) := by
  rw [toList_enclosed]
  show ReadsBack _ _ ('\x7b' :: ' ' :: (_ ++ [' ', '\x7d'])) _
  refine readsBack_enclosed h (by rwa [List.length_map]) (by decide) (fun _ => rfl) (fun _ => rfl) fun r => ?_
  have hupdate : readUpdate (readExpression k) k
      ([',', ' '].intercalate ((assigned (x, t) :: ts).map String.toList) ++ ' ' :: '\x7d' :: r) = none := by
    rw [List.map_cons, intercalate_cons_eq_append, List.append_assoc]
    exact readUpdate_field hx t _
  rw [readEnclosed, hupdate]
  rfl

theorem readsBack_update (hx : IsIdentifier x)
    (h : List.Forall₂ (ReadsBack (readField (readExpression k)) closes) (ts.map String.toList) fs)
    (hk : ts.length ≤ k) :
    ReadsBack (readAtom (k + 1)) ends ("\x7b " ++ x ++ " | " ++ ", ".intercalate ts ++ " \x7d").toList
      (.update x fs) := by
  intro r _
  have hitems : readItems (readField (readExpression k)) k '\x7d'
      ([',', ' '].intercalate (ts.map String.toList) ++ ' ' :: '\x7d' :: r) = some (fs, r) :=
    readItems_append h rfl rfl (by rwa [List.length_map])
  have hupdate : readUpdate (readExpression k) k
      (x.toList ++ ([' ', '|', ' '] ++ ([',', ' '].intercalate (ts.map String.toList) ++ ' ' :: '\x7d' :: r))) =
        some (.update x fs, r) := by
    rw [readUpdate, readName_append hx (by simp [Schema.isNameChar])]
    show (readAfter [' ', '|', ' '] _ _ >>= _) = _
    rw [readAfter_append, hitems]
    rfl
  have htext : ("\x7b " ++ x ++ " | " ++ ", ".intercalate ts ++ " \x7d").toList ++ r =
      '\x7b' :: ' ' :: (x.toList ++
        ([' ', '|', ' '] ++ ([',', ' '].intercalate (ts.map String.toList) ++ ' ' :: '\x7d' :: r))) := by
    simp [String.toList_intercalate]
  rw [htext, readAtom_of_not_isAlpha (by decide), readEnclosed, hupdate]
  rfl

theorem readsBack_parenthesized {t : String} {n : Node} (h : ReadsBack (readExpression k) closes t.toList n) :
    ReadsBack (readAtom (k + 1)) ends ("(" ++ t ++ ")").toList n := by
  intro r _
  have hread := h (')' :: r) rfl
  have htext : ("(" ++ t ++ ")").toList ++ r = '(' :: (t.toList ++ ')' :: r) := by simp
  rw [htext, readAtom_of_not_isAlpha (by decide), readEnclosed, hread]
  · rfl
  · intro cs hcs
    -- no expression starts with a space, so this is no tuple
    rw [hcs, readExpression_space] at hread
    cases hread

end

end

/-! ### Expressions -/

/-- Whether an expression that has a text can be read back from it, as an argument and on its own. -/
def IsReadable (n : Node) : Prop :=
  ∀ t, n.inlineText = .ok t → ∀ k, sizeOf n ≤ k →
    ReadsBack (readAtom k) ends (n.asArgument t).toList n.plain ∧
      ReadsBack (readExpression k) closes t.toList n.plain

theorem length_lt_sizeOf {α : Type} [SizeOf α] (xs : List α) : xs.length < sizeOf xs := by
  induction xs with
  | nil =>
    rw [List.nil.sizeOf_spec]
    exact Nat.zero_lt_one
  | cons x xs ih =>
    rw [List.length_cons, List.cons.sizeOf_spec]
    omega

/-- An atom reads the same on its own, so it is enough to read it as an argument. -/
theorem isReadable_of_atom {n : Node} (happ : n.isApplication = false)
    (h : ∀ t, n.inlineText = .ok t → ∀ k, sizeOf n ≤ k + 1 → ReadsBack (readAtom (k + 1)) ends t.toList n.plain) :
    n.IsReadable := by
  intro t ht k hk
  obtain ⟨k, rfl⟩ : ∃ j, k = j + 1 := by
    refine Nat.exists_eq_succ_of_ne_zero ?_
    rintro rfl
    cases n <;> simp +arith at hk
  have hatom := h t ht k hk
  rw [asArgument, happ]
  exact ⟨hatom, readsBack_expression hatom⟩

theorem forall₂_of_mapM_ok {ε α β γ δ : Type} {f : α → Except ε β} {R : γ → δ → Prop} {g : β → γ} {g' : α → δ}
    {xs : List α} (h : ∀ x ∈ xs, ∀ y, f x = .ok y → R (g y) (g' x)) {ys : List β} (hys : xs.mapM f = .ok ys) :
    List.Forall₂ R (ys.map g) (xs.map g') := by
  induction xs generalizing ys with
  | nil =>
    cases hys
    exact .nil
  | cons x xs ih =>
    rw [List.mapM_cons] at hys
    obtain ⟨y, hy, hys⟩ := bind_eq_ok_iff.1 hys
    obtain ⟨ys, hxs, hys⟩ := bind_eq_ok_iff.1 hys
    cases hys
    obtain ⟨hx, hrest⟩ := List.forall_mem_cons.1 h
    exact .cons (hx y hy) (ih hrest hxs)

section

variable {k : Nat} {ns : List Node} {fs : List (String × Node)} {ts : List String}

theorem readsBack_inlineAll (h : ∀ n ∈ ns, n.IsReadable) (hts : inlineAll ns = .ok ts) (hk : sizeOf ns ≤ k) :
    List.Forall₂ (ReadsBack (readExpression k) closes) (ts.map String.toList) (plainAll ns) ∧ ts.length ≤ k := by
  rw [inlineAll_eq_mapM] at hts
  rw [plainAll_eq, length_of_mapM_ok hts]
  have hlen := length_lt_sizeOf ns
  refine ⟨forall₂_of_mapM_ok (fun n hn t ht => (h n hn t ht k ?_).2) hts, by omega⟩
  have := List.sizeOf_lt_of_mem hn
  omega

theorem readsBack_inlineArgs (h : ∀ n ∈ ns, n.IsReadable) (hts : inlineArgs ns = .ok ts) (hk : sizeOf ns ≤ k) :
    List.Forall₂ (ReadsBack (readAtom k) ends) (ts.map String.toList) (plainAll ns) ∧ ts.length ≤ k := by
  rw [inlineArgs_eq_mapM] at hts
  rw [plainAll_eq, length_of_mapM_ok hts]
  have hlen := length_lt_sizeOf ns
  refine ⟨forall₂_of_mapM_ok (fun n hn u hu => ?_) hts, by omega⟩
  obtain ⟨t, ht, rfl⟩ := map_eq_ok_iff.1 hu
  refine (h n hn t ht k ?_).1
  have := List.sizeOf_lt_of_mem hn
  omega

theorem readsBack_inlineFields (hfs : ∀ f ∈ fs, IsIdentifier f.1) (h : ∀ f ∈ fs, f.2.IsReadable)
    {ts : List (String × String)} (hts : inlineFields fs = .ok ts) (hk : sizeOf fs ≤ k) :
    List.Forall₂ (ReadsBack (readField (readExpression k)) closes) ((ts.map assigned).map String.toList)
      (plainFields fs) ∧ (ts.map assigned).length ≤ k := by
  have hts' : (fs.mapM fun f => (f.1 ++ " = " ++ ·) <$> f.2.inlineText) = .ok (ts.map assigned) := by
    rw [← map_inlineFields, hts]
    rfl
  rw [plainFields_eq, length_of_mapM_ok hts']
  have hlen := length_lt_sizeOf fs
  refine ⟨forall₂_of_mapM_ok (fun f hf u hu => ?_) hts', by omega⟩
  obtain ⟨t, ht, rfl⟩ := map_eq_ok_iff.1 hu
  have hsize : sizeOf f.2 ≤ k := by
    have := sizeOf_snd_lt f
    have := List.sizeOf_lt_of_mem hf
    omega
  have htext : (f.1 ++ " = " ++ t).toList = f.1.toList ++ ([' ', '=', ' '] ++ t.toList) := by simp
  rw [htext]
  exact readsBack_field (hfs f hf) (h f hf t ht k hsize).2

end

theorem isReadable_application {f : String} {n : Node} {ns : List Node} (hf : IsIdentifier f)
    (h : ∀ m ∈ n :: ns, m.IsReadable) : (Node.call f (n :: ns)).IsReadable := by
  intro t ht k hk
  obtain ⟨ts, hts, heq⟩ := bind_eq_ok_iff.1 ht
  cases heq
  rw [call.sizeOf_spec] at hk
  have hread (j : Nat) (hj : sizeOf (n :: ns) ≤ j) :
      ReadsBack (readExpression j) closes (spaced f ts).toList (.call f (plainAll (n :: ns))) := by
    obtain ⟨hns, hlen⟩ := readsBack_inlineArgs h hts hj
    rw [toList_spaced]
    exact readsBack_application hf (List.cons_ne_nil _ _) hns (by rwa [List.length_map])
  -- the parentheses take one level of the depth
  obtain ⟨k, rfl⟩ : ∃ j, k = j + 1 := Nat.exists_eq_succ_of_ne_zero (by omega)
  exact ⟨readsBack_parenthesized (hread k (by omega)), hread _ (by omega)⟩

theorem Identified.isReadable {n : Node} (h : n.Identified) : n.IsReadable := by
  induction h with
  | var hx =>
    refine isReadable_of_atom rfl ?_
    rintro t ⟨⟩ k -
    exact readsBack_var hx
  | access hr hx =>
    refine isReadable_of_atom rfl ?_
    rintro t ⟨⟩ k -
    exact readsBack_access hr hx
  | str =>
    refine isReadable_of_atom rfl ?_
    rintro t ⟨⟩ k -
    exact readsBack_str _
  | wildcard =>
    refine isReadable_of_atom rfl ?_
    rintro t ⟨⟩ k - r -
    rfl
  | @call f ns hf _ ih =>
    cases ns with
    | nil =>
      refine isReadable_of_atom rfl ?_
      rintro t ⟨⟩ k -
      show ReadsBack _ _ (spaced f []).toList (Node.var f)
      rw [toList_spaced]
      simpa using readsBack_var hf
    | cons n ns => exact isReadable_application hf ih
  | @list ns _ ih =>
    refine isReadable_of_atom rfl fun t ht k hk => ?_
    rw [list.sizeOf_spec] at hk
    cases ns with
    | nil =>
      cases ht
      exact fun _ _ => rfl
    | cons n ns =>
      obtain ⟨ts, hts, heq⟩ := bind_eq_ok_iff.1 ht
      cases heq
      obtain ⟨hns, hlen⟩ := readsBack_inlineAll (k := k) ih hts (by omega)
      exact readsBack_list hns hlen
  | @tuple ns _ ih =>
    refine isReadable_of_atom rfl fun t ht k hk => ?_
    rw [tuple.sizeOf_spec] at hk
    obtain ⟨ts, hts, heq⟩ := bind_eq_ok_iff.1 ht
    cases heq
    obtain ⟨hns, hlen⟩ := readsBack_inlineAll (k := k) ih hts (by omega)
    exact readsBack_tuple hns hlen
  | @record fs hfs _ ih =>
    refine isReadable_of_atom rfl fun t ht k hk => ?_
    rw [record.sizeOf_spec] at hk
    cases fs with
    | nil =>
      cases ht
      exact fun _ _ => rfl
    | cons f fs =>
      obtain ⟨ts, hts, heq⟩ := bind_eq_ok_iff.1 ht
      cases heq
      obtain ⟨hread, hlen⟩ := readsBack_inlineFields (k := k) hfs ih hts (by omega)
      obtain ⟨u, -, hts⟩ := bind_eq_ok_iff.1 hts
      obtain ⟨us, -, hts⟩ := bind_eq_ok_iff.1 hts
      cases hts
      exact readsBack_record (hfs f List.mem_cons_self) hread hlen
  | @update r fs hr hfs _ ih =>
    refine isReadable_of_atom rfl fun t ht k hk => ?_
    rw [update.sizeOf_spec] at hk
    obtain ⟨ts, hts, heq⟩ := bind_eq_ok_iff.1 ht
    cases heq
    obtain ⟨hread, hlen⟩ := readsBack_inlineFields (k := k) hfs ih hts (by omega)
    exact readsBack_update hr hread hlen

theorem isApplication_plain (n : Node) : n.plain.isApplication = n.isApplication := by
  cases n with
  | call f ns => cases ns <;> rfl
  | _ => rfl

section

variable {ns : List Node} {fs : List (String × Node)}

theorem inlineAll_plainAll (h : ∀ n ∈ ns, n.plain.inlineText = n.inlineText) :
    inlineAll (plainAll ns) = inlineAll ns := by
  induction ns with
  | nil => rfl
  | cons n ns ih =>
    obtain ⟨hn, hns⟩ := List.forall_mem_cons.1 h
    rw [plainAll, inlineAll, inlineAll, hn, ih hns]

theorem inlineArgs_plainAll (h : ∀ n ∈ ns, n.plain.inlineText = n.inlineText) :
    inlineArgs (plainAll ns) = inlineArgs ns := by
  induction ns with
  | nil => rfl
  | cons n ns ih =>
    obtain ⟨hn, hns⟩ := List.forall_mem_cons.1 h
    have harg : n.plain.asArgument = n.asArgument := by
      funext t
      rw [asArgument, asArgument, isApplication_plain]
    rw [plainAll, inlineArgs, inlineArgs, hn, harg, ih hns]

theorem inlineFields_plainFields (h : ∀ f ∈ fs, f.2.plain.inlineText = f.2.inlineText) :
    inlineFields (plainFields fs) = inlineFields fs := by
  induction fs with
  | nil => rfl
  | cons f fs ih =>
    obtain ⟨hf, hfs⟩ := List.forall_mem_cons.1 h
    rw [plainFields, inlineFields, inlineFields, hf, ih hfs]

end

theorem Identified.inlineText_plain {n : Node} (h : n.Identified) : n.plain.inlineText = n.inlineText := by
  induction h with
  | @call f ns _ _ ih =>
    cases ns with
    | nil => exact congrArg Except.ok (by simp [spaced])
    | cons n ns => exact congrArg (spaced f <$> ·) (inlineArgs_plainAll ih)
  | @list ns _ ih =>
    cases ns with
    | nil => rfl
    | cons n ns =>
      have hns : inlineAll (n.plain :: plainAll ns) = inlineAll (n :: ns) := inlineAll_plainAll ih
      simp only [plain, plainAll, inlineText, hns]
  | tuple _ ih => rw [plain, inlineText, inlineText, inlineAll_plainAll ih]
  | @record fs _ _ ih =>
    cases fs with
    | nil => rfl
    | cons f fs =>
      have hfs : inlineFields ((f.1, f.2.plain) :: plainFields fs) = inlineFields (f :: fs) :=
        inlineFields_plainFields ih
      simp only [plain, plainFields, inlineText, hfs]
  | update _ _ _ ih => rw [plain, inlineText, inlineText, inlineFields_plainFields ih]
  | _ => rfl

/-- Two expressions have the same text exactly if they are the same when calls without arguments are taken for
variables. -/
theorem inlineText_eq_iff {a b : Node} (ha : a.Identified) (hb : b.Identified) {s t : String}
    (hs : a.inlineText = .ok s) (ht : b.inlineText = .ok t) : s = t ↔ a.plain = b.plain := by
  constructor
  · rintro rfl
    -- at a depth that is enough for both, the reader finds both in the one text
    obtain ⟨-, hreada⟩ := ha.isReadable s hs (sizeOf a + sizeOf b) (Nat.le_add_right _ _)
    obtain ⟨-, hreadb⟩ := hb.isReadable s ht (sizeOf a + sizeOf b) (Nat.le_add_left _ _)
    have heq := (hreada [] rfl).symm.trans (hreadb [] rfl)
    exact congrArg Prod.fst (Option.some.inj heq)
  · intro hplain
    rw [← ha.inlineText_plain, hplain, hb.inlineText_plain, ht] at hs
    exact (Except.ok.inj hs).symm

/-- A call without arguments reads like a variable, and what brackets and commas could be taken for is harmless in a
literal; a tuple of one application does not read like the application. -/
theorem inlineText_eq_iff_constant :
    let text : Node := .str "\", ( g ]"
    let a : Node := .call "f" [.call "g" [], .tuple [.call "h" [.var "x", text]]]
    let b : Node := .call "f" [.var "g", .tuple [.call "h" [.var "x", text]]]
    let c : Node := .call "f" [.var "g", .call "h" [.var "x", text]]
    a.Identified ∧ b.Identified ∧ c.Identified ∧
      a.inlineText = .ok "f g ( h x \"\\\", ( g ]\" )" ∧ b.inlineText = .ok "f g ( h x \"\\\", ( g ]\" )" ∧
      c.inlineText = .ok "f g (h x \"\\\", ( g ]\")" ∧ a.plain = b.plain ∧ a.plain ≠ c.plain := by
  intro text a b c
  have happlied : (Node.call "h" [.var "x", text]).Identified := by
    exact .call (by decide) (List.forall_mem_cons.2 ⟨.var (by decide), List.forall_mem_singleton.2 .str⟩)
  have htuple : (Node.tuple [.call "h" [.var "x", text]]).Identified :=
    .tuple (List.forall_mem_singleton.2 happlied)
  have ha : a.Identified := by
    refine .call (by decide) (List.forall_mem_cons.2 ⟨.call (by decide) ?_, List.forall_mem_singleton.2 htuple⟩)
    exact fun n hn => absurd hn List.not_mem_nil
  have hb : b.Identified :=
    .call (by decide) (List.forall_mem_cons.2 ⟨.var (by decide), List.forall_mem_singleton.2 htuple⟩)
  have hc : c.Identified :=
    .call (by decide) (List.forall_mem_cons.2 ⟨.var (by decide), List.forall_mem_singleton.2 happlied⟩)
  have hat : a.inlineText = .ok "f g ( h x \"\\\", ( g ]\" )" := rfl
  have hbt : b.inlineText = .ok "f g ( h x \"\\\", ( g ]\" )" := rfl
  have hct : c.inlineText = .ok "f g (h x \"\\\", ( g ]\")" := rfl
  refine ⟨ha, hb, hc, hat, hbt, hct, (inlineText_eq_iff ha hb hat hbt).1 rfl, fun h => ?_⟩
  exact absurd ((inlineText_eq_iff ha hc hat hct).2 h) (by decide)

end Node

end TypedAssets.Code
