import TypedAssets.Proofs.Functions
import TypedAssets.Proofs.Generation
import TypedAssets.Proofs.Layout.Literal
import TypedAssets.Proofs.Schema

/-!
# The manifest read off the generated text

`packText_eq_iff`: manifests whose names are constructor names have the same text only if they are the same.
The key types tell the names of each kind, the rows of the container the order of the kinds, and the load
lists the paths.
-/

namespace TypedAssets

theorem map_eq_map_of_imp {α β γ : Type} {f : α → β} {g : α → γ} {as bs : List α}
    (hfg : ∀ a ∈ as, ∀ b ∈ bs, f a = f b → g a = g b) (h : as.map f = bs.map f) :
    as.map g = bs.map g := by
  induction as generalizing bs with
  | nil =>
    rw [List.map_nil, eq_comm, List.map_eq_nil_iff] at h
    rw [h]
  | cons a as ih =>
    obtain ⟨b, bs, rfl, hb, hbs⟩ := List.map_eq_cons_iff.1 h.symm
    rw [List.map_cons, List.map_cons, hfg a List.mem_cons_self b List.mem_cons_self hb.symm]
    refine congrArg (g b :: ·) (ih (fun a ha c hc => ?_) hbs.symm)
    exact hfg a (List.mem_cons_of_mem _ ha) c (List.mem_cons_of_mem _ hc)

theorem eq_of_map_eq_map {α β γ : Type} {f : α → β} {g : α → γ} {as bs : List α}
    (hinj : ∀ a ∈ as, ∀ b ∈ bs, f a = f b → g a = g b → a = b) (hf : as.map f = bs.map f)
    (hg : as.map g = bs.map g) : as = bs := by
  induction as generalizing bs with
  | nil => exact (List.map_eq_nil_iff.1 hf.symm).symm
  | cons a as ih =>
    obtain ⟨b, bs, rfl, hb, hbs⟩ := List.map_eq_cons_iff.1 hf.symm
    obtain ⟨hgab, hg⟩ := List.cons.inj hg
    rw [hinj a List.mem_cons_self b List.mem_cons_self hb.symm hgab]
    refine congrArg (b :: ·) (ih (fun a ha c hc => ?_) hbs.symm hg)
    exact hinj a (List.mem_cons_of_mem _ ha) c (List.mem_cons_of_mem _ hc)

/-- The order of the kinds and the assets of each kind make up the manifest. -/
theorem Manifest.eq_of_ofKind_eq {m n : Manifest} (hkinds : m.assets.map Asset.kind = n.assets.map Asset.kind)
    (h : ∀ k, m.ofKind k = n.ofKind k) : m = n := by
  obtain ⟨as⟩ := m
  obtain ⟨bs⟩ := n
  refine congrArg Manifest.mk ?_
  change as.map Asset.kind = bs.map Asset.kind at hkinds
  change ∀ k, (as.filter fun a => a.kind = k) = bs.filter fun a => a.kind = k at h
  induction as generalizing bs with
  | nil => exact (List.map_eq_nil_iff.1 hkinds.symm).symm
  | cons a as ih =>
    obtain ⟨b, bs, rfl, hb, hbs⟩ := List.map_eq_cons_iff.1 hkinds.symm
    -- the first asset is also the first of its kind
    have hhead := h a.kind
    rw [List.filter_cons_of_pos (by simp), List.filter_cons_of_pos (by simpa using hb)] at hhead
    obtain ⟨rfl, -⟩ := List.cons.inj hhead
    refine congrArg (a :: ·) (ih bs hbs.symm fun k => ?_)
    have hk := h k
    rw [List.filter_cons, List.filter_cons] at hk
    split at hk
    · exact (List.cons.inj hk).2
    · exact hk

namespace Code

open Text

theorem render_inj {i : Nat} {mark s t : String}
    (h : (⟨i, mark ++ s⟩ : Line).render = (⟨i, mark ++ t⟩ : Line).render) : s = t :=
  (String.append_right_inj mark).1 ((String.append_right_inj (spaces i)).1 h)

theorem marked_injective {first other : String} {rows rows' : List String}
    (h : (marked first other rows).map Line.render = (marked first other rows').map Line.render) :
    rows = rows' := by
  cases rows with
  | nil =>
    cases rows' with
    | nil => rfl
    | cons => cases h
  | cons r rows =>
    cases rows' with
    | nil => cases h
    | cons r' rows' =>
      rw [marked, marked, List.map_cons, List.map_cons, List.map_map, List.map_map] at h
      obtain ⟨hr, hrows⟩ := List.cons.inj h
      rw [render_inj hr, (List.map_inj_right fun _ _ => render_inj).1 hrows]

theorem recordAliasLines_rows {t : String} {ps ps' : List String} {fs fs' : List (String × String)}
    (h : (recordAliasLines t ps fs).map Line.render = (recordAliasLines t ps' fs').map Line.render) :
    (fs.map fun f => f.1 ++ " : " ++ f.2) = fs'.map fun f => f.1 ++ " : " ++ f.2 := by
  have hlen := congrArg List.length h
  cases fs with
  | nil =>
    cases fs' with
    | nil => rfl
    | cons => simp [recordAliasLines, marked] at hlen
  | cons f fs =>
    cases fs' with
    | nil => simp [recordAliasLines, marked] at hlen
    | cons f' fs' =>
      rw [recordAliasLines, recordAliasLines, List.map_append, List.map_append] at h
      · exact marked_injective (List.cons.inj (List.append_cancel_right h)).2
      · exact List.cons_ne_nil _ _
      · exact List.cons_ne_nil _ _

/-- The lines of a list, given the texts of its items. -/
def listLines (indent : Nat) : List String → List Line
  | [] => [⟨indent, "[]"⟩]
  | [t] => [⟨indent, "[ " ++ t ++ " ]"⟩]
  | t :: u :: ts => bracketed indent "[" "]" (t :: u :: ts)

theorem blockLines_list {ns : List Node} {ts : List String} (h : Node.inlineAll ns = .ok ts) (i : Nat) :
    (Node.list ns).blockLines i = .ok (listLines i ts) := by
  match ns with
  | [] =>
    cases h
    rfl
  | [n] =>
    obtain ⟨t, ht, hts⟩ := bind_eq_ok_iff.1 h
    cases hts
    refine bind_eq_ok_iff.2 ⟨"[ " ++ t ++ " ]", bind_eq_ok_iff.2 ⟨[t], h, ?_⟩, rfl⟩
    rw [String.intercalate_singleton]
    rfl
  | n :: n' :: ns =>
    obtain ⟨t, -, hts⟩ := bind_eq_ok_iff.1 h
    obtain ⟨ts', hts', hts⟩ := bind_eq_ok_iff.1 hts
    cases hts
    obtain ⟨t', -, hts⟩ := bind_eq_ok_iff.1 hts'
    obtain ⟨ts, -, hts⟩ := bind_eq_ok_iff.1 hts
    cases hts
    rw [Node.blockLines, if_pos (by simp)]
    exact bind_eq_ok_iff.2 ⟨_, h, rfl⟩

theorem listLines_injective {i : Nat} {ts ts' : List String} (hlen : ts.length = ts'.length)
    (h : (listLines i ts).map Line.render = (listLines i ts').map Line.render) : ts = ts' := by
  match ts, ts' with
  | [], [] => rfl
  | [], _ :: _ => cases hlen
  | _ :: _, [] => cases hlen
  | [t], [t'] =>
    rw [listLines, listLines, String.append_assoc, String.append_assoc] at h
    have ht := render_inj (List.cons.inj h).1
    rw [(String.append_left_inj _).1 ht]
  | [_], _ :: _ :: _ => simp at hlen
  | _ :: _ :: _, [_] => simp at hlen
  | t :: u :: ts, t' :: u' :: ts' =>
    rw [listLines, listLines, bracketed, bracketed, List.map_append, List.map_append] at h
    obtain ⟨ht, hts⟩ := List.cons.inj (List.append_cancel_right h)
    rw [List.map_map, List.map_map] at hts
    rw [render_inj ht, (List.map_inj_right fun _ _ => render_inj).1 hts]

end Code

namespace Pack

open Code Text

variable {m n : Manifest} {k : Kind} {as bs : List Asset}

def keyRows (k : Kind) (as : List Asset) : List String :=
  if as = [] then [k.keyType ++ " Never"] else as.map Asset.name

theorem sumTypeLines_keyType (k : Kind) (as : List Asset) :
    sumTypeLines k.keyType (as.map fun a => ⟨a.name, []⟩) =
      ⟨0, "type " ++ k.keyType⟩ :: marked "=" "|" (keyRows k as) := by
  cases as with
  | nil => cases k <;> rfl
  | cons a as =>
    have hrows : ((a :: as).map fun a => (⟨a.name, []⟩ : Variant)).map Variant.declared =
        (a :: as).map Asset.name := by
      rw [List.map_map]
      exact List.map_congr_left fun b _ => String.append_empty
    rw [keyRows, if_neg (List.cons_ne_nil a as), ← hrows]
    rfl

/-- The row of a kind without assets is no name, since no name holds a space. -/
theorem map_name_eq_of_keyRows_eq (has : ∀ a ∈ as, ' ' ∉ a.name.toList)
    (hbs : ∀ b ∈ bs, ' ' ∉ b.name.toList) (h : keyRows k as = keyRows k bs) :
    as.map Asset.name = bs.map Asset.name := by
  have hnever {cs : List Asset} (hcs : ∀ c ∈ cs, ' ' ∉ c.name.toList) :
      [k.keyType ++ " Never"] ≠ cs.map Asset.name := by
    intro h
    obtain ⟨c, hc, hname⟩ := List.mem_map.1 (h ▸ List.mem_cons_self)
    refine hcs c hc ?_
    rw [hname]
    simp
  rw [keyRows, keyRows] at h
  split at h
  · next ha =>
    split at h
    · next hb => rw [ha, hb]
    · exact absurd h (hnever hbs)
  · split at h
    · exact absurd h.symm (hnever has)
    · exact h

theorem kind_eq_of_row_eq {a b : Asset}
    (h : a.field ++ " : " ++ a.kind.typeParam = b.field ++ " : " ++ b.kind.typeParam) :
    a.kind = b.kind := by
  -- the parameters differ in the fifth character from the end, whatever the fields before them are
  have hlast {s t : String} : s ++ " : " ++ "textureType" ≠ t ++ " : " ++ "soundType" := by
    intro h
    have hl := congrArg (fun s : String => s.toList.reverse[4]?) h
    simp at hl
  cases ha : a.kind with
  | texture =>
    cases hb : b.kind with
    | texture => rfl
    | sound =>
      rw [ha, hb] at h
      exact absurd h hlast
  | sound =>
    cases hb : b.kind with
    | texture =>
      rw [ha, hb] at h
      exact absurd h.symm hlast
    | sound => rfl

/-- The request to load an asset, as text. -/
def loadText : Kind → Asset → String
  | .texture, a => spaced "LoadTexture" [literal a.loadPath, a.name]
  | .sound, a => spaced "LoadAudio" [a.name, literal a.loadPath]

theorem inlineText_loadCall (k : Kind) (a : Asset) : (loadCall k a).inlineText = .ok (loadText k a) := by
  cases k <;> rfl

theorem inlineAll_loadCalls (k : Kind) (as : List Asset) :
    Node.inlineAll (as.map (loadCall k)) = .ok (as.map (loadText k)) := by
  rw [Node.inlineAll_eq_mapM, List.mapM_map]
  exact mapM_eq_map fun a _ => inlineText_loadCall k a

theorem eq_of_loadText_eq {a b : Asset} (ha : a.kind = k) (hb : b.kind = k) (hname : a.name = b.name)
    (h : loadText k a = loadText k b) : a = b := by
  have hliteral : literal a.loadPath = literal b.loadPath := by
    cases k with
    | texture =>
      rw [loadText, loadText, spaced, spaced, hname, String.intercalate_cons_cons,
        String.intercalate_cons_cons, String.intercalate_cons_cons, String.intercalate_cons_cons,
        String.append_right_inj, String.append_left_inj, String.append_left_inj] at h
      exact h
    | sound =>
      rw [loadText, loadText, spaced, spaced, hname, String.intercalate_cons_cons,
        String.intercalate_cons_cons, String.intercalate_cons_cons, String.intercalate_cons_cons,
        String.append_right_inj, String.append_right_inj, String.intercalate_singleton,
        String.intercalate_singleton] at h
      exact h
  have hpath := Asset.path_eq_of_loadPath_eq (ha.trans hb.symm) (literal_injective hliteral)
  obtain ⟨ka, na, pa⟩ := a
  obtain ⟨kb, nb, pb⟩ := b
  simp only at ha hb hname hpath
  rw [ha, hb, hname, hpath]

theorem renderedLines_loadList (m : Manifest) (k : Kind) :
    (loadList m k).renderedLines =
      Line.render ⟨0, loadListName k ++ " : " ++ loadListType k⟩ ::
        Line.render ⟨0, spaced (loadListName k) [] ++ " ="⟩ ::
          (listLines indentStep ((m.ofKind k).map (loadText k))).map Line.render := by
  have hbody := blockLines_list (inlineAll_loadCalls k (m.ofKind k)) indentStep
  have hlines : declarationLines (loadList m k) = .ok (⟨0, loadListName k ++ " : " ++ loadListType k⟩ ::
      ⟨0, spaced (loadListName k) [] ++ " ="⟩ :: listLines indentStep ((m.ofKind k).map (loadText k))) :=
    bind_eq_ok_iff.2 ⟨_, hbody, rfl⟩
  rw [Node.renderedLines_eq hlines]
  rfl

/-! ### The declarations of the text -/

section

variable (h : m.packModule.declarations.map Node.renderedLines = n.packModule.declarations.map Node.renderedLines)
include h

theorem renderedLines_eq_at (i : Nat) : m.packModule.declarations[i]?.map Node.renderedLines =
    n.packModule.declarations[i]?.map Node.renderedLines := by
  rw [← List.getElem?_map, h, List.getElem?_map]

theorem keyRows_eq (k : Kind) : keyRows k (m.ofKind k) = keyRows k (n.ofKind k) := by
  have hlines : (Node.sumType k.keyType ((m.ofKind k).map fun a => ⟨a.name, []⟩)).renderedLines =
      (Node.sumType k.keyType ((n.ofKind k).map fun a => ⟨a.name, []⟩)).renderedLines := by
    cases k with
    | texture => exact Option.some.inj (renderedLines_eq_at h 0)
    | sound => exact Option.some.inj (renderedLines_eq_at h 1)
  rw [Node.renderedLines_eq rfl, Node.renderedLines_eq rfl, sumTypeLines_keyType, sumTypeLines_keyType]
    at hlines
  exact marked_injective (List.cons.inj hlines).2

theorem kinds_eq : m.assets.map Asset.kind = n.assets.map Asset.kind := by
  have hlines := Option.some.inj (renderedLines_eq_at h 2)
  rw [Node.renderedLines_eq rfl, Node.renderedLines_eq rfl] at hlines
  have hrows := recordAliasLines_rows hlines
  rw [List.map_map, List.map_map] at hrows
  exact map_eq_map_of_imp (fun a _ b _ => kind_eq_of_row_eq) hrows

theorem loadTexts_eq (k : Kind) (hlen : (m.ofKind k).length = (n.ofKind k).length) :
    (m.ofKind k).map (loadText k) = (n.ofKind k).map (loadText k) := by
  have hlines : (loadList m k).renderedLines = (loadList n k).renderedLines := by
    cases k with
    | texture => exact Option.some.inj (renderedLines_eq_at h 10)
    | sound => exact Option.some.inj (renderedLines_eq_at h 12)
  rw [renderedLines_loadList, renderedLines_loadList] at hlines
  refine listLines_injective ?_ (List.cons.inj (List.cons.inj hlines).2).2
  rw [List.length_map, List.length_map, hlen]

end

end Pack

/-- The generated text determines the manifest: the order of its assets and the kind, the name and the
path of each, whatever the paths are. -/
theorem Manifest.packText_eq_iff {m n : Manifest}
    (hm : ∀ a ∈ m.assets, Schema.IsConstructorName a.name.toList)
    (hn : ∀ a ∈ n.assets, Schema.IsConstructorName a.name.toList) :
    m.packText = n.packText ↔ m = n := by
  refine ⟨fun h => ?_, fun h => by rw [h]⟩
  have hlines := Code.Module.renderedLines_eq_of_text_eq
    (Pack.namedWithout_packModule fun a ha => (hm a ha).not_mem (by decide))
    (Pack.namedWithout_packModule fun a ha => (hn a ha).not_mem (by decide))
    (List.cons_ne_nil _ _) (List.cons_ne_nil _ _)
    (Pack.isDeclaration_packModule m) (Pack.isDeclaration_packModule n) h
  refine eq_of_ofKind_eq (Pack.kinds_eq hlines) fun k => ?_
  have hspace {m : Manifest} (hm : ∀ a ∈ m.assets, Schema.IsConstructorName a.name.toList) :
      ∀ a ∈ m.ofKind k, ' ' ∉ a.name.toList := fun a ha =>
    (hm a (mem_ofKind.1 ha).1).not_mem (by decide)
  have hnames := Pack.map_name_eq_of_keyRows_eq (hspace hm) (hspace hn) (Pack.keyRows_eq hlines k)
  have hlen : (m.ofKind k).length = (n.ofKind k).length := by
    simpa using congrArg List.length hnames
  refine eq_of_map_eq_map (fun a ha b hb => ?_) hnames (Pack.loadTexts_eq hlines k hlen)
  exact Pack.eq_of_loadText_eq (mem_ofKind.1 ha).2 (mem_ofKind.1 hb).2

/-- One asset whose path reads like the code of two, and the two. -/
theorem Manifest.packText_eq_iff_codelike_path :
    let m : Manifest := ⟨[⟨.texture, "A", "x.png\" A\n    , LoadTexture \"./assets/img/x"⟩]⟩
    let n : Manifest := ⟨[⟨.texture, "A", "x"⟩, ⟨.texture, "A", "x"⟩]⟩
    (∀ a ∈ m.assets ++ n.assets, Schema.IsConstructorName a.name.toList) ∧ m.packText ≠ n.packText := by
  intro m n
  have hA : Schema.IsConstructorName "A".toList := ⟨'A', [], rfl, by decide, fun d hd => nomatch hd⟩
  have hall : ∀ a ∈ m.assets ++ n.assets, Schema.IsConstructorName a.name.toList := by
    intro a ha
    have hname : a.name = "A" := by
      have hevery : ∀ a ∈ m.assets ++ n.assets, a.name = "A" := by decide
      exact hevery a ha
    rw [hname]
    exact hA
  refine ⟨hall, fun h => ?_⟩
  have heq := (packText_eq_iff (fun a ha => hall a (List.mem_append_left _ ha))
    fun a ha => hall a (List.mem_append_right _ ha)).1 h
  exact absurd heq (by decide)

end TypedAssets
