import TypedAssets.Code.Layout.Block
import TypedAssets.Proofs.Layout.Inline

/-!
# Expressions as blocks

The lines of an expression form a paragraph: empty lines stand between branches only, never at an end
and never two in a row, and no other line starts left of the block (`isBlockAt_blockLines`). The lines
embed the strings of the expression, as its text on one line does (`NamedWithout.blockLines`).
-/

namespace TypedAssets.Code

open Text

/-- Lines that start at a column or to the right of it, as a paragraph. -/
def IsBlockAt (indent : Nat) (ls : List Line) : Prop :=
  Paragraph Line.blank (fun l => indent ≤ l.indent) ls

theorem IsBlockAt.mono {i j : Nat} {ls : List Line} (hij : i ≤ j) (h : IsBlockAt j ls) :
    IsBlockAt i ls :=
  Paragraph.mono (fun _ hl => Nat.le_trans hij hl) h

theorem isBlockAt_bracketed (i : Nat) (left right : String) (items : List String) :
    IsBlockAt i (bracketed i left right items) := by
  cases items with
  | nil => exact .single (Nat.le_refl i)
  | cons item items =>
    refine Paragraph.of_forall (List.cons_ne_nil _ _) fun l hmem => ?_
    rcases List.mem_cons.1 hmem with rfl | hmem
    · exact Nat.le_refl i
    rcases List.mem_append.1 hmem with hmem | hmem
    · obtain ⟨t, -, rfl⟩ := List.mem_map.1 hmem
      exact Nat.le_refl i
    · obtain rfl := List.mem_singleton.1 hmem
      exact Nat.le_refl i

theorem isBlockAt_separated {i : Nat} {bs : List (List Line)} (hne : bs ≠ [])
    (h : ∀ b ∈ bs, IsBlockAt i b) : IsBlockAt i (separated bs) := by
  induction bs with
  | nil => exact absurd rfl hne
  | cons b bs ih =>
    have hb := h b List.mem_cons_self
    cases bs with
    | nil => exact hb
    | cons c bs =>
      exact hb.append_blank (ih (List.cons_ne_nil c bs) fun x hx => h x (List.mem_cons_of_mem _ hx))

theorem isBlockAt_impossibleBranch (i : Nat) (ty : String) : IsBlockAt i (impossibleBranch i ty) :=
  .cons (Nat.le_refl i) (.single (Nat.le_add_right i indentStep))

section

variable {q : Mark} {i : Nat}

/-- Lines that embed strings, one after another. -/
def EmbedsLines (q : Mark) (ss : List String) (ls ks : List Line) : Prop :=
  EmbedsAll q ss (ls.map Line.render) (ks.map Line.render)

namespace EmbedsLines

variable {t k : String} {ss ss' : List String} {ls ks ls' ks' : List Line}

theorem nil : EmbedsLines q [] [] [] := EmbedsAll.nil

theorem cons (h : Embeds q ss t k) (hls : EmbedsLines q ss' ls ks) :
    EmbedsLines q (ss ++ ss') (⟨i, t⟩ :: ls) (⟨i, k⟩ :: ks) :=
  EmbedsAll.cons (h.after (without_spaces i)) hls

theorem single (h : Embeds q ss t k) : EmbedsLines q ss [⟨i, t⟩] [⟨i, k⟩] := by
  simpa using cons h nil

theorem append (h : EmbedsLines q ss ls ks) (h' : EmbedsLines q ss' ls' ks') :
    EmbedsLines q (ss ++ ss') (ls ++ ls') (ks ++ ks') := by
  rw [EmbedsLines, List.map_append, List.map_append]
  exact EmbedsAll.append h h'

theorem of_code (h : ∀ l ∈ ls, Without q l.text) : EmbedsLines q [] ls ls := by
  refine EmbedsAll.of_code fun s hs => ?_
  obtain ⟨l, hl, rfl⟩ := List.mem_map.1 hs
  exact without_append.2 ⟨without_spaces _, h l hl⟩

end EmbedsLines

theorem embedsLines_bracketed {left right : String} {ss ts ks : List String} (hl : Without q left)
    (hr : Without q right) (h : EmbedsAll q ss ts ks) :
    EmbedsLines q ss (bracketed i left right ts) (bracketed i left right ks) := by
  have hclose : EmbedsLines q [] [⟨i, right⟩] [⟨i, right⟩] := .single (.code hr)
  cases h with
  | nil => exact hclose
  | @cons t k ss ss' ts ks h hts =>
    have hitems : EmbedsLines q ss' (ts.map fun t => ⟨i, ", " ++ t⟩) (ks.map fun k => ⟨i, ", " ++ k⟩) := by
      rw [EmbedsLines, List.map_map, List.map_map]
      refine hts.map fun h => ?_
      exact (h.after (u := ", ") (by cases q <;> decide)).after (without_spaces i)
    have hleft : Without q (left ++ " ") := without_append.2 ⟨hl, by cases q <;> decide⟩
    simpa [bracketed] using EmbedsLines.cons (i := i) (h.after hleft) (hitems.append hclose)

theorem embedsLines_impossibleBranch {ty : String} (hty : Without q ty) :
    EmbedsLines q [] (impossibleBranch i ty) (impossibleBranch i ty) := by
  have hpattern : Without q (ty ++ " impossible ->") := without_append.2 ⟨hty, by cases q <;> decide⟩
  exact .cons (.code hpattern) (.single (.code (by cases q <;> decide)))

theorem embedsLines_separated_cons {ss ss' : List String} {b c : List Line} {bs cs : List (List Line)}
    (hlen : cs.length = bs.length) (hb : EmbedsLines q ss b c)
    (h : EmbedsLines q ss' (separated bs) (separated cs)) :
    EmbedsLines q (ss ++ ss') (separated (b :: bs)) (separated (c :: cs)) := by
  cases bs with
  | nil =>
    obtain rfl := List.length_eq_zero_iff.1 hlen
    cases h
    rwa [List.append_nil]
  | cons b' bs =>
    cases cs with
    | nil => cases hlen
    | cons c' cs => exact hb.append (.cons (.code without_empty) h)

end

namespace Node

/-! ### The lines of an expression -/

theorem isBlockAt_line {n : Node} {i : Nat} {ls : List Line}
    (hls : (do return [⟨i, ← n.inlineText⟩] : Except LayoutError (List Line)) = .ok ls) :
    IsBlockAt i ls := by
  obtain ⟨t, -, hls⟩ := bind_eq_ok_iff.1 hls
  cases hls
  exact .single (Nat.le_refl i)

mutual

-- what is deeper starts further in, so a block of the parts is one of the whole by `IsBlockAt.mono`
theorem isBlockAt_blockLines (n : Node) {i : Nat} {ls : List Line} (hls : n.blockLines i = .ok ls) :
    IsBlockAt i ls := by
  cases n with
  | call f ns =>
    rw [blockLines] at hls
    split at hls
    · next hlast =>
      obtain ⟨⟨heads, ls'⟩, hr, hls⟩ := bind_eq_ok_iff.1 hls
      cases hls
      exact .cons (Nat.le_refl i) ((isBlockAt_blockArgs ns hr hlast).mono (Nat.le_add_right i indentStep))
    · exact isBlockAt_line hls
  | list ns =>
    rw [blockLines] at hls
    split at hls
    · obtain ⟨ts, -, hls⟩ := bind_eq_ok_iff.1 hls
      cases hls
      exact isBlockAt_bracketed i _ _ ts
    · exact isBlockAt_line hls
  | record fs =>
    rw [blockLines] at hls
    split at hls
    · obtain ⟨ts, -, hls⟩ := bind_eq_ok_iff.1 hls
      cases hls
      exact isBlockAt_bracketed i _ _ _
    · exact isBlockAt_line hls
  | case s bs ty =>
    cases bs with
    | nil =>
      cases ty with
      | none => cases hls
      | some t =>
        obtain ⟨u, -, hls⟩ := bind_eq_ok_iff.1 hls
        cases hls
        exact .cons (Nat.le_refl i)
          ((isBlockAt_impossibleBranch _ t).mono (Nat.le_add_right i indentStep))
    | cons b bs =>
      obtain ⟨u, -, hls⟩ := bind_eq_ok_iff.1 hls
      obtain ⟨bls, hbls, hls⟩ := bind_eq_ok_iff.1 hls
      cases hls
      obtain ⟨hlen, hmem⟩ := isBlockAt_branchLines (b :: bs) hbls
      have hne : bls ≠ [] := by
        rintro rfl
        cases hlen
      exact .cons (Nat.le_refl i) ((isBlockAt_separated hne hmem).mono (Nat.le_add_right i indentStep))
  | _ => exact isBlockAt_line hls
termination_by structural n

theorem isBlockAt_blockArgs (ns : List Node) {i : Nat} {heads : List String} {ls : List Line}
    (hr : blockArgs i ns = .ok (heads, ls)) (hlast : lastIsMultiline ns = true) : IsBlockAt i ls := by
  match ns with
  | [] => cases hlast
  | [n] =>
    obtain ⟨ls', hls, hr⟩ := bind_eq_ok_iff.1 hr
    cases hr
    exact isBlockAt_blockLines n hls
  | _ :: n :: ns =>
    obtain ⟨t, -, hr⟩ := bind_eq_ok_iff.1 hr
    obtain ⟨⟨heads', ls'⟩, hr', hr⟩ := bind_eq_ok_iff.1 hr
    cases hr
    exact isBlockAt_blockArgs (n :: ns) hr' hlast
termination_by structural ns

theorem isBlockAt_branchLines (bs : List (Node × Node)) {i : Nat} {bls : List (List Line)}
    (hbls : branchLines i bs = .ok bls) : bls.length = bs.length ∧ ∀ b ∈ bls, IsBlockAt i b := by
  match bs with
  | [] =>
    cases hbls
    exact ⟨rfl, fun b hb => absurd hb List.not_mem_nil⟩
  | (p, b) :: bs =>
    obtain ⟨t, -, hbls⟩ := bind_eq_ok_iff.1 hbls
    obtain ⟨ls, hls, hbls⟩ := bind_eq_ok_iff.1 hbls
    obtain ⟨bls', hbls', hbls⟩ := bind_eq_ok_iff.1 hbls
    cases hbls
    obtain ⟨hlen, hmem⟩ := isBlockAt_branchLines bs hbls'
    refine ⟨by rw [List.length_cons, List.length_cons, hlen], fun c hc => ?_⟩
    rcases List.mem_cons.1 hc with rfl | hc
    · exact .cons (Nat.le_refl i) ((isBlockAt_blockLines b hls).mono (Nat.le_add_right i indentStep))
    · exact hmem c hc
termination_by structural bs

end

section

variable {q : Mark} {i : Nat}

theorem NamedWithout.line {n : Node} (h : n.NamedWithout q) :
    Follows (EmbedsLines q n.strings) (do return [⟨i, ← n.inlineText⟩])
      (do return [⟨i, ← n.emptied.inlineText⟩]) :=
  h.inlineText.bind fun _ _ h => .ok (.single h)

/-- The text of the arguments but the last and the lines of the last, which share the strings. -/
def EmbedsArgs (q : Mark) (ss : List String) (r r' : List String × List Line) : Prop :=
  ∃ ss₁ ss₂, ss = ss₁ ++ ss₂ ∧ EmbedsAll q ss₁ r.1 r'.1 ∧ EmbedsLines q ss₂ r.2 r'.2

theorem follows_blockArgs {ns : List Node} (h : ∀ n ∈ ns, n.NamedWithout q)
    (hblock : ∀ n ∈ ns, Follows (EmbedsLines q n.strings) (n.blockLines i) (n.emptied.blockLines i)) :
    Follows (EmbedsArgs q (stringsAll ns)) (blockArgs i ns) (blockArgs i (emptiedAll ns)) := by
  induction ns with
  | nil => exact .ok ⟨[], [], rfl, .nil, .nil⟩
  | cons n ns ih =>
    cases ns with
    | nil =>
      refine (hblock n List.mem_cons_self).bind fun ls ks hall => .ok ⟨[], n.strings, ?_, .nil, hall⟩
      exact List.append_nil _
    | cons n' ns =>
      refine (h n List.mem_cons_self).inlineText.bind fun t k htk => ?_
      refine (ih (fun n hn => h n (List.mem_cons_of_mem _ hn)) fun n hn =>
        hblock n (List.mem_cons_of_mem _ hn)).bind fun r r' hr => .ok ?_
      obtain ⟨ss, ss', hss, hheads, hlines⟩ := hr
      refine ⟨n.strings ++ ss, ss', ?_, .cons (embeds_asArgument htk) hheads, hlines⟩
      rw [stringsAll, hss, List.append_assoc]

theorem follows_branchLines {bs : List (Node × Node)} (hpattern : ∀ b ∈ bs, b.1.NamedWithout q)
    (hbody : ∀ b ∈ bs, Follows (EmbedsLines q b.2.strings) (b.2.blockLines (i + indentStep))
      (b.2.emptied.blockLines (i + indentStep))) :
    Follows (fun ls ks => ks.length = ls.length ∧
      EmbedsLines q (stringsBranches bs) (separated ls) (separated ks))
      (branchLines i bs) (branchLines i (emptiedBranches bs)) := by
  induction bs with
  | nil => exact .ok ⟨rfl, .nil⟩
  | cons b bs ih =>
    refine (hpattern b List.mem_cons_self).inlineText.bind fun t k htk => ?_
    refine (hbody b List.mem_cons_self).bind fun ls ks hlines => ?_
    refine (ih (fun b hb => hpattern b (List.mem_cons_of_mem _ hb)) fun b hb =>
      hbody b (List.mem_cons_of_mem _ hb)).bind fun bls kls hrest => .ok ?_
    refine ⟨congrArg (· + 1) hrest.1, embedsLines_separated_cons hrest.1 (.cons ?_ hlines) hrest.2⟩
    exact htk.before (by cases q <;> decide)

theorem NamedWithout.blockLines {n : Node} (h : n.NamedWithout q) :
    ∀ i, Follows (EmbedsLines q n.strings) (n.blockLines i) (n.emptied.blockLines i) := by
  induction h with
  | var hx => exact fun _ => (NamedWithout.var hx).line
  | access hr hx => exact fun _ => (NamedWithout.access hr hx).line
  | str => exact fun _ => NamedWithout.str.line
  | wildcard => exact fun _ => NamedWithout.wildcard.line
  | @call f ns hf h ih =>
    intro i
    rw [emptied, Node.blockLines, Node.blockLines, lastIsMultiline_emptied]
    refine .ite (fun _ => ?_) fun _ => (NamedWithout.call hf h).line
    refine (follows_blockArgs h fun n hn => ih n hn (i + indentStep)).bind fun r r' hr => .ok ?_
    obtain ⟨ss, ss', hss, hheads, hlines⟩ := hr
    rw [strings, hss]
    exact .cons (embeds_spaced hf hheads) hlines
  | @list ns h _ =>
    intro i
    have hlen : (emptiedAll ns).length = ns.length := by rw [emptiedAll_eq, List.length_map]
    rw [emptied, Node.blockLines, Node.blockLines, hlen]
    refine .ite (fun _ => ?_) fun _ => (NamedWithout.list h).line
    refine (follows_inlineAll fun n hn => (h n hn).inlineText).bind fun ts ks hall => .ok ?_
    exact embedsLines_bracketed (by cases q <;> decide) (by cases q <;> decide) hall
  | tuple h _ => exact fun _ => (NamedWithout.tuple h).line
  | @record fs hfs h _ =>
    intro i
    have hlen : (emptiedFields fs).length = fs.length := by rw [emptiedFields_eq, List.length_map]
    rw [emptied, Node.blockLines, Node.blockLines, hlen]
    refine .ite (fun _ => ?_) fun _ => (NamedWithout.record hfs h).line
    refine (follows_inlineFields hfs fun f hf => (h f hf).inlineText).bind fun ts ks hall => .ok ?_
    exact embedsLines_bracketed (by cases q <;> decide) (by cases q <;> decide) hall
  | update hr hfs h _ => exact fun _ => (NamedWithout.update hr hfs h).line
  | @case s bs ty hs hpattern _ hty _ _ ih =>
    intro i
    have hhead {t k : String} (h : Embeds q s.strings t k) :
        Embeds q s.strings ("case " ++ t ++ " of") ("case " ++ k ++ " of") :=
      (h.after (by cases q <;> decide)).before (by cases q <;> decide)
    cases bs with
    | nil =>
      cases ty with
      | none => exact fun _ h => nomatch h
      | some ty =>
        refine hs.inlineText.bind fun t k htk => .ok (.cons (hhead htk) ?_)
        exact embedsLines_impossibleBranch (hty ty rfl)
    | cons b bs =>
      refine hs.inlineText.bind fun t k htk => ?_
      exact (follows_branchLines hpattern fun b hb => ih b hb (i + indentStep + indentStep)).bind
        fun ls ks hrest => .ok (.cons (hhead htk) hrest.2)

end

end Node

end TypedAssets.Code
