import TypedAssets.Proofs.Layout.Block
import TypedAssets.Proofs.Layout.Tokens

/-!
# Blocks and lines

The block of an expression has the tokens of its text on one line, but for parentheses. A call that is the
last argument of another call and takes several lines stands below it without the parentheses that it has on
one line. These pairs are all that is missing (`tokens_blockLines`), so the block reads as the line does if and
only if there is no such call.
-/

namespace TypedAssets.Code

open Text

/-- Tokens with `k` pairs of parentheses put in, one inside the other: a pair is opened somewhere and closed at the
end of what the pair around it holds. -/
inductive Parenthesizes : Nat → List Token → List Token → Prop
  | same (us : List Token) : Parenthesizes 0 us us
  | after {k : Nat} {us vs : List Token} (ws : List Token) (h : Parenthesizes k us vs) :
      Parenthesizes k (ws ++ us) (ws ++ vs)
  | enclose {k : Nat} {us vs : List Token} (h : Parenthesizes k us vs) :
      Parenthesizes (k + 1) us (.sign '(' :: vs ++ [.sign ')'])

namespace Parenthesizes

variable {k : Nat} {us vs : List Token}

theorem length_eq (h : Parenthesizes k us vs) : vs.length = us.length + 2 * k := by
  induction h with
  | same => rfl
  | after ws _ ih => rw [List.length_append, List.length_append, ih, Nat.add_assoc]
  | enclose _ ih =>
    rw [List.length_append, List.length_cons, List.length_singleton, ih]
    omega

theorem eq_of_zero (h : Parenthesizes k us vs) (hk : k = 0) : us = vs := by
  induction h with
  | same => rfl
  | after ws _ ih => rw [ih hk]
  | enclose => cases hk

theorem eq_iff (h : Parenthesizes k us vs) : us = vs ↔ k = 0 := by
  refine ⟨fun heq => ?_, h.eq_of_zero⟩
  have hlen := h.length_eq
  rw [heq] at hlen
  omega

end Parenthesizes

/-- Lines with the tokens of a text, but for `k` of its pairs of parentheses. -/
def Agrees (k : Nat) (t : String) (ls : List Line) : Prop :=
  ls ≠ [] ∧ ∃ us vs, Reads (renderLines ls) us ∧ Reads t vs ∧ Parenthesizes k us vs

namespace Agrees

variable {i k : Nat} {t u : String} {ls : List Line} {us : List Token}

theorem single (h : Reads t us) : Agrees 0 t [⟨i, t⟩] :=
  ⟨List.cons_ne_nil _ _, us, us, Reads.line h, h, .same us⟩

/-- Below a line, on the one side, and after a blank, on the other. -/
theorem below (hu : Reads u us) (h : Agrees k t ls) : Agrees k (u ++ " " ++ t) (⟨i, u⟩ :: ls) := by
  obtain ⟨hne, us', vs, hls, ht, hp⟩ := h
  have hblank : signs " ".toList = [] := by decide
  have hline := hu.join (s := " ") (by decide) ht
  rw [hblank, List.append_nil] at hline
  exact ⟨List.cons_ne_nil _ _, us ++ us', us ++ vs, Reads.lines_cons hu hne hls, hline, hp.after us⟩

theorem enclosed (h : Agrees k t ls) : Agrees (k + 1) ("(" ++ t ++ ")") ls := by
  obtain ⟨hne, us, vs, hls, ht, hp⟩ := h
  exact ⟨hne, us, _, hls, (ht.after (s := "(") (by decide)).before (by decide), hp.enclose⟩

end Agrees

theorem reads_bracketed {i : Nat} {left right t : String} {ts : List String} {uss : List (List Token)}
    (hleft : IsDivider (left ++ " ")) (hright : IsDivider right) (h : List.Forall₂ Reads (t :: ts) uss) :
    Reads (renderLines (bracketed i left right (t :: ts)))
      (signs (left ++ " ").toList ++ (signs ", ".toList).intercalate uss ++ signs right.toList) := by
  obtain ⟨us, uss, ht, hts, rfl⟩ := List.forall₂_cons_left_iff.1 h
  have hitems : List.Forall₂ (fun (l : Line) us => Reads l.text us) (ts.map fun t => ⟨i, ", " ++ t⟩)
      (uss.map (signs ", ".toList ++ ·)) := by
    rw [List.forall₂_map_left_iff, List.forall₂_map_right_iff]
    exact hts.imp fun _ _ h => h.after (by decide)
  have hclose : List.Forall₂ (fun (l : Line) us => Reads l.text us) [⟨i, right⟩] [signs right.toList] :=
    .cons (by simpa using Reads.empty.after hright) .nil
  have hopen : Reads (⟨i, left ++ " " ++ t⟩ : Line).text (signs (left ++ " ").toList ++ us) := ht.after hleft
  have hlines := reads_renderLines (.cons hopen (List.rel_append hitems hclose))
  rw [intercalate_cons_eq_append]
  simpa [bracketed] using hlines

theorem agrees_bracketed {i : Nat} {left right : String} {ss ts ks : List String} (hpos : 0 < ts.length)
    (hleft : IsDivider (left ++ " ")) (hright : IsDivider right) (h : EmbedsAll .quote ss ts ks) :
    Agrees 0 (left ++ " " ++ ", ".intercalate ts ++ (" " ++ right)) (bracketed i left right ts) := by
  obtain ⟨t, ts, rfl⟩ := List.exists_cons_of_length_pos hpos
  obtain ⟨uss, huss⟩ := h.reads
  have hblank : IsDivider " " := by decide
  have hend : signs (" " ++ right).toList = signs right.toList := by
    rw [String.toList_append, signs_append]
    rfl
  have hline := ((Reads.intercalate (s := ", ") (by decide) huss).after hleft).before (hblank.append hright)
  rw [hend] at hline
  exact ⟨List.cons_ne_nil _ _, _, _, reads_bracketed hleft hright huss, hline, .same _⟩

/-! ### Expressions -/

namespace Node

theorem length_inlineAll {ns : List Node} {ts : List String} (h : inlineAll ns = .ok ts) :
    ts.length = ns.length := by
  rw [inlineAll_eq_mapM] at h
  exact length_of_mapM_ok h

theorem length_inlineFields {fs : List (String × Node)} {ts : List (String × String)}
    (h : inlineFields fs = .ok ts) : ts.length = fs.length := by
  rw [inlineFields_eq_mapM] at h
  exact length_of_mapM_ok h

mutual

/-- How many calls of an expression stand as blocks below another call, and so without parentheses. -/
def bareCalls : Node → Nat
  | .call _ args => bareCallsLast args
  | _ => 0
termination_by structural n => n

def bareCallsLast : List Node → Nat
  | [] => 0
  | [n] => if n.isMultiline && n.isApplication then n.bareCalls + 1 else 0
  | _ :: ns => bareCallsLast ns
termination_by structural ns => ns

end

theorem bareCallsLast_of_not {ns : List Node} (h : ¬ lastIsMultiline ns) : bareCallsLast ns = 0 := by
  induction ns with
  | nil => rfl
  | cons n ns ih =>
    cases ns with
    | nil =>
      have hn : n.isMultiline = false := by simpa [lastIsMultiline] using h
      simp [bareCallsLast, hn]
    | cons n' ns => exact ih h

theorem bareCalls_of_not_isApplication {n : Node} (h : ¬ n.isApplication) : n.bareCalls = 0 := by
  cases n with
  | call f ns =>
    cases ns with
    | nil => rfl
    | cons => exact absurd rfl h
  | _ => rfl

section

variable {i : Nat} {n : Node} {ns : List Node}

theorem NamedWithout.reads_inlineText (h : n.NamedWithout .quote) {t : String} (ht : n.inlineText = .ok t) :
    ∃ us, Reads t us := by
  obtain ⟨k, -, htk⟩ := h.inlineText t ht
  exact htk.reads

theorem NamedWithout.agrees_line (h : n.NamedWithout .quote) :
    Follows (Agrees 0) n.inlineText (do return [⟨i, ← n.inlineText⟩]) := by
  intro t ht
  obtain ⟨us, hus⟩ := h.reads_inlineText ht
  exact ⟨[⟨i, t⟩], bind_eq_ok_iff.2 ⟨t, ht, rfl⟩, .single hus⟩

theorem agrees_asArgument (hn : n.isMultiline) {t : String} {ls : List Line} (h : Agrees n.bareCalls t ls) :
    Agrees (bareCallsLast [n]) (n.asArgument t) ls := by
  by_cases happ : n.isApplication
  · simpa [bareCallsLast, asArgument, hn, happ] using h.enclosed
  · rw [bareCalls_of_not_isApplication happ] at h
    simpa [bareCallsLast, asArgument, happ] using h

theorem spaced_append (f t : String) (heads : List String) :
    spaced f (heads ++ [t]) = spaced f heads ++ " " ++ t := by
  rw [spaced, ← List.cons_append, String.intercalate_append_of_ne_nil (List.cons_ne_nil _ _) (List.cons_ne_nil _ _),
    String.intercalate_singleton, spaced]

/-- The arguments of a call, whose last one is a block. -/
theorem agrees_blockArgs (h : ∀ n ∈ ns, n.NamedWithout .quote)
    (hblock : ∀ n ∈ ns, Follows (Agrees n.bareCalls) n.inlineText (n.blockLines i))
    (hlast : lastIsMultiline ns) :
    Follows (fun ts r => ∃ uss t, ts = r.1 ++ [t] ∧ List.Forall₂ Reads r.1 uss ∧ Agrees (bareCallsLast ns) t r.2)
      (inlineArgs ns) (blockArgs i ns) := by
  -- along the arguments; those before the last are written as they are on one line
  induction ns with
  | nil => cases hlast
  | cons n ns ih =>
    intro ts hts
    obtain ⟨t, ht, hts⟩ := bind_eq_ok_iff.1 hts
    obtain ⟨ts, hrest, heq⟩ := bind_eq_ok_iff.1 hts
    cases heq
    cases ns with
    | nil =>
      cases hrest
      obtain ⟨ls, hls, hagrees⟩ := hblock n List.mem_cons_self t ht
      refine ⟨([], ls), bind_eq_ok_iff.2 ⟨ls, hls, rfl⟩, [], n.asArgument t, rfl, .nil, ?_⟩
      exact agrees_asArgument hlast hagrees
    | cons n' ns =>
      obtain ⟨⟨heads, ls⟩, hr, uss, t', rfl, hheads, hagrees⟩ :=
        ih (fun n hn => h n (List.mem_cons_of_mem _ hn)) (fun n hn => hblock n (List.mem_cons_of_mem _ hn))
          hlast ts hrest
      obtain ⟨k, -, htk⟩ := (h n List.mem_cons_self).inlineText t ht
      obtain ⟨us, hus⟩ := (embeds_asArgument htk).reads
      have hblocks : blockArgs i (n :: n' :: ns) = .ok (n.asArgument t :: heads, ls) :=
        bind_eq_ok_iff.2 ⟨t, ht, bind_eq_ok_iff.2 ⟨(heads, ls), hr, rfl⟩⟩
      exact ⟨_, hblocks, us :: uss, t', rfl, .cons hus hheads, hagrees⟩

theorem NamedWithout.agrees_blockLines (h : n.NamedWithout .quote) :
    ∀ i, Follows (Agrees n.bareCalls) n.inlineText (n.blockLines i) := by
  induction h with
  | @call f ns hf h ih =>
    intro i
    rw [Node.blockLines]
    split
    next hlast =>
      rw [Node.inlineText]
      refine (agrees_blockArgs h (fun n hn => ih n hn (i + indentStep)) hlast).bind fun ts r hr => .ok ?_
      obtain ⟨uss, t, rfl, hheads, hagrees⟩ := hr
      obtain ⟨us, hus⟩ := (Embeds.code hf).reads
      rw [spaced_append]
      exact .below (Reads.intercalate (by decide) (.cons hus hheads)) hagrees
    next hlast =>
      rw [bareCalls, bareCallsLast_of_not hlast]
      exact (NamedWithout.call hf h).agrees_line
  | @list ns h _ =>
    intro i
    rw [Node.blockLines]
    split
    next hlen =>
      obtain ⟨n, ns, rfl⟩ := List.exists_cons_of_length_pos (Nat.zero_lt_of_lt hlen)
      intro t ht
      obtain ⟨ts, hts, heq⟩ := bind_eq_ok_iff.1 ht
      cases heq
      obtain ⟨ks, -, hall⟩ := follows_inlineAll (fun n hn => (h n hn).inlineText) ts hts
      have hpos : 0 < ts.length := by
        rw [length_inlineAll hts]
        omega
      exact ⟨_, bind_eq_ok_iff.2 ⟨ts, hts, rfl⟩, agrees_bracketed hpos (by decide) (by decide) hall⟩
    next => exact (NamedWithout.list h).agrees_line
  | @record fs hfs h _ =>
    intro i
    rw [Node.blockLines]
    split
    next hlen =>
      obtain ⟨f, fs, rfl⟩ := List.exists_cons_of_length_pos (Nat.zero_lt_of_lt hlen)
      intro t ht
      obtain ⟨ts, hts, heq⟩ := bind_eq_ok_iff.1 ht
      cases heq
      obtain ⟨ks, -, hall⟩ := follows_inlineFields hfs (fun f hf => (h f hf).inlineText) ts hts
      have hpos : 0 < (ts.map assigned).length := by
        rw [List.length_map, length_inlineFields hts]
        omega
      exact ⟨_, bind_eq_ok_iff.2 ⟨ts, hts, rfl⟩, agrees_bracketed hpos (by decide) (by decide) hall⟩
    next => exact (NamedWithout.record hfs h).agrees_line
  | case => exact fun _ _ ht => nomatch ht
  | var hx => exact fun _ => (NamedWithout.var hx).agrees_line
  | access hr hx => exact fun _ => (NamedWithout.access hr hx).agrees_line
  | str => exact fun _ => NamedWithout.str.agrees_line
  | wildcard => exact fun _ => NamedWithout.wildcard.agrees_line
  | tuple h _ => exact fun _ => (NamedWithout.tuple h).agrees_line
  | update hr hfs h _ => exact fun _ => (NamedWithout.update hr hfs h).agrees_line

/-- An expression with a text on one line has a block at every column, and the tokens of the text are those of the
block with a pair of parentheses for each bare call. They are the same exactly if there is none. -/
theorem tokens_blockLines (hn : n.NamedWithout .quote) {t : String} (ht : n.inlineText = .ok t) (i : Nat) :
    ∃ ls us vs, n.blockLines i = .ok ls ∧ tokens (renderLines ls) = some us ∧ tokens t = some vs ∧
      Parenthesizes n.bareCalls us vs ∧ (us = vs ↔ n.bareCalls = 0) := by
  obtain ⟨ls, hls, -, us, vs, hus, hvs, hp⟩ := hn.agrees_blockLines i t ht
  exact ⟨ls, us, vs, hls, hus.tokens_eq, hvs.tokens_eq, hp, hp.eq_iff⟩

theorem tokens_blockLines_nested :
    (Node.call "Just" [.call "Just" [.list [.var "a", .var "b"]]]).NamedWithout .quote ∧
    (Node.call "Just" [.call "Just" [.list [.var "a", .var "b"]]]).inlineText =
      .ok "Just (Just [ a, b ])" ∧
    ∃ ls, (Node.call "Just" [.call "Just" [.list [.var "a", .var "b"]]]).blockLines 4 = .ok ls ∧
      tokens (renderLines ls) ≠ tokens "Just (Just [ a, b ])" := by
  have hn : (Node.call "Just" [.call "Just" [.list [.var "a", .var "b"]]]).NamedWithout .quote := by
    have hitems : ∀ n ∈ [Node.var "a", .var "b"], n.NamedWithout .quote :=
      List.forall_mem_cons.2 ⟨.var (by decide), List.forall_mem_singleton.2 (.var (by decide))⟩
    have hinner : (Node.call "Just" [.list [.var "a", .var "b"]]).NamedWithout .quote :=
      .call (by decide) (List.forall_mem_singleton.2 (.list hitems))
    exact .call (by decide) (List.forall_mem_singleton.2 hinner)
  have ht : (Node.call "Just" [.call "Just" [.list [.var "a", .var "b"]]]).inlineText =
      .ok "Just (Just [ a, b ])" := rfl
  obtain ⟨ls, us, vs, hls, hus, hvs, -, hiff⟩ := tokens_blockLines hn ht 4
  refine ⟨hn, ht, ls, hls, fun heq => ?_⟩
  rw [hus, hvs] at heq
  exact absurd (hiff.1 (Option.some.inj heq)) (by decide)

end

end Node

end TypedAssets.Code
