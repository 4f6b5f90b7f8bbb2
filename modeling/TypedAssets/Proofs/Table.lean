import Mathlib.Data.List.Forall2
import TypedAssets.Manifest.Table
import TypedAssets.Text.Blank

/-!
# The asset table read back

The pieces of a text between runs of white space are the words that were put into it, whatever their padding
(`pieces_padRight`). So a row of the table falls into the kind, the name and the load path of its asset, which
starts at a column that is the same for all rows, and a table determines its manifest (`table_reads_back`).
-/

namespace TypedAssets

namespace Text

/-- A text without white space. -/
def Unblank (s : String) : Prop := ∀ c ∈ s.toList, isBlank c = false

instance (s : String) : Decidable (Unblank s) := List.decidableBAll (isBlank · = false) s.toList

theorem Unblank.append {s t : String} (hs : Unblank s) (ht : Unblank t) : Unblank (s ++ t) := by
  intro c hc
  rw [String.toList_append] at hc
  exact (List.mem_append.1 hc).elim (hs c) (ht c)

/-- The pieces of a text between runs of white space, and before the first and after the last. -/
def pieces (cs : List Char) : List String := ((cs.splitOnP isBlank).filter (· ≠ [])).map String.ofList

theorem pieces_append_blank {c : Char} (hc : isBlank c = true) (cs ds : List Char) :
    pieces (cs ++ c :: ds) = pieces cs ++ pieces ds := by
  rw [pieces, List.splitOnP_append_cons cs ds hc, List.filter_append, List.map_append]
  rfl

theorem pieces_unblank {s : String} (hne : s ≠ "") (hs : Unblank s) : pieces s.toList = [s] := by
  have hfilter : [s.toList].filter (· ≠ []) = [s.toList] := by simp [hne]
  rw [pieces, List.splitOnP_eq_singleton hs, hfilter, List.map_singleton, String.ofList_toList]

theorem pieces_append_spaces (n : Nat) (cs ds : List Char) :
    pieces (cs ++ List.replicate (n + 1) ' ' ++ ds) = pieces cs ++ pieces ds := by
  induction n generalizing cs with
  | zero => rw [List.append_assoc, List.replicate_one, List.singleton_append, pieces_append_blank (by decide)]
  | succ n ih =>
    rw [List.replicate_succ, List.append_assoc, List.cons_append, pieces_append_blank (by decide)]
    exact congrArg (pieces cs ++ ·) (ih [])

/-- Padding to any width leaves the pieces as they are. -/
theorem pieces_padRight (width : Nat) (s t : String) :
    pieces (padRight width s ++ " " ++ t).toList = pieces s.toList ++ pieces t.toList := by
  have hspaces : (padRight width s ++ " " ++ t).toList =
      s.toList ++ List.replicate (width - s.length + 1) ' ' ++ t.toList := by
    simp [padRight, List.replicate_succ']
  rw [hspaces, pieces_append_spaces]

/-- The lines of a text, for some choice of the characters that break lines. -/
def linesAt (isBreak : Char → Bool) (s : String) : List String := (s.toList.splitOnP isBreak).map String.ofList

theorem linesAt_intercalate {isBreak : Char → Bool} (hbreak : isBreak '\n' = true) {ls : List String}
    (hne : ls ≠ []) (h : ∀ l ∈ ls, ∀ c ∈ l.toList, isBreak c = false) :
    linesAt isBreak ("\n".intercalate ls) = ls := by
  induction ls with
  | nil => exact absurd rfl hne
  | cons l ls ih =>
    obtain ⟨hl, hls⟩ := List.forall_mem_cons.1 h
    cases ls with
    | nil =>
      rw [String.intercalate_singleton, linesAt, List.splitOnP_eq_singleton hl, List.map_singleton,
        String.ofList_toList]
    | cons l' ls =>
      have htoList : ("\n".intercalate (l :: l' :: ls)).toList =
          l.toList ++ '\n' :: ("\n".intercalate (l' :: ls)).toList := by
        rw [String.intercalate_cons_cons, String.toList_append, String.toList_append, List.append_assoc]
        rfl
      rw [linesAt, htoList, List.splitOnP_append_cons_of_forall_mem hl '\n' hbreak, List.map_cons,
        String.ofList_toList]
      exact congrArg (l :: ·) (ih (List.cons_ne_nil _ _) hls)

end Text

open Text

theorem Kind.unblank_word (k : Kind) : Unblank k.word := by
  cases k <;> decide

theorem Kind.word_ne_empty (k : Kind) : k.word ≠ "" := by
  cases k <;> decide

theorem Asset.unblank_loadPath {a : Asset} (ha : Unblank a.path) : Unblank a.loadPath := by
  have hkind : Unblank a.kind.directory ∧ Unblank a.kind.extension := by
    cases a.kind <;> decide
  have hroot : Unblank ("./assets/" ++ a.kind.directory ++ "/") :=
    ((by decide : Unblank "./assets/").append hkind.1).append (by decide)
  exact ((hroot.append ha).append (by decide)).append hkind.2

theorem Asset.loadPath_ne_empty (a : Asset) : a.loadPath ≠ "" := by
  intro h
  have hlen := congrArg String.length h
  simp [Asset.loadPath] at hlen

namespace Manifest

variable {m n : Manifest} {a b : Asset} {width column : Nat}

/-- A line with the kind, the name and the load path of an asset, the path from some column on. -/
structure IsRow (column : Nat) (a : Asset) (line : String) : Prop where
  pieces_eq : pieces line.toList = [a.kind.word, a.name, a.loadPath]
  path_at : ∃ lead : String, line = lead ++ a.loadPath ∧ lead.length = column

/-- The column of the load paths. -/
def pathColumn (m : Manifest) : Nat := kindWidth + 1 + m.nameWidth + 1

theorem isRow_row (hne : a.name ≠ "") (hname : Unblank a.name) (hpath : Unblank a.path)
    (hwidth : a.name.length ≤ width) : IsRow (kindWidth + 1 + width + 1) a (row width a) := by
  constructor
  · have hrow : row width a =
        padRight kindWidth a.kind.word ++ " " ++ (padRight width a.name ++ " " ++ a.loadPath) := by
      simp only [row, String.append_assoc]
    rw [hrow, pieces_padRight, pieces_padRight, pieces_unblank a.kind.word_ne_empty a.kind.unblank_word,
      pieces_unblank hne hname, pieces_unblank a.loadPath_ne_empty (Asset.unblank_loadPath hpath)]
    rfl
  · have hkind : a.kind.word.length ≤ kindWidth := by
      cases a.kind <;> decide
    refine ⟨padRight kindWidth a.kind.word ++ " " ++ padRight width a.name ++ " ", rfl, ?_⟩
    have hspace : " ".length = 1 := rfl
    rw [String.length_append, String.length_append, String.length_append, length_padRight, length_padRight, hspace,
      Nat.max_eq_left hkind, Nat.max_eq_left hwidth]

theorem length_name_le_nameWidth (ha : a ∈ m.assets) : a.name.length ≤ m.nameWidth := by
  have hmax {n : Nat} {ns : List Nat} (hn : n ∈ ns) : n ≤ ns.foldr max 0 := by
    induction ns with
    | nil => cases hn
    | cons k ns ih =>
      rcases List.mem_cons.1 hn with rfl | hn
      · exact Nat.le_max_left _ _
      · exact Nat.le_trans (ih hn) (Nat.le_max_right _ _)
  exact hmax (List.mem_map_of_mem (List.mem_map_of_mem ha))

/-- The only white space of a row are spaces. -/
theorem eq_space_or_not_isBlank_of_mem_row (hname : Unblank a.name) (hpath : Unblank a.path) {c : Char}
    (hc : c ∈ (row width a).toList) : c = ' ' ∨ isBlank c = false := by
  simp only [row, padRight, String.append_assoc, String.toList_append, toList_spaces, List.mem_append,
    List.mem_replicate] at hc
  rcases hc with hc | ⟨-, hc⟩ | hc | hc | ⟨-, hc⟩ | hc | hc
  · exact .inr (a.kind.unblank_word c hc)
  · exact .inl hc
  · exact .inl (List.mem_singleton.1 hc)
  · exact .inr (hname c hc)
  · exact .inl hc
  · exact .inl (List.mem_singleton.1 hc)
  · exact .inr (Asset.unblank_loadPath hpath c hc)

/-- The rows of two assets differ if the assets do, wherever the columns are. -/
theorem IsRow.eq {column' : Nat} {line : String} (ha : IsRow column a line) (hb : IsRow column' b line) : a = b := by
  have hpieces := ha.pieces_eq.symm.trans hb.pieces_eq
  simp only [List.cons.injEq, and_true] at hpieces
  obtain ⟨hkind, hname, hloadPath⟩ := hpieces
  have hkind := Kind.word_injective hkind
  have hpath := Asset.path_eq_of_loadPath_eq hkind hloadPath
  obtain ⟨ka, na, pa⟩ := a
  obtain ⟨kb, nb, pb⟩ := b
  simp only at hkind hname hpath
  rw [hkind, hname, hpath]

theorem eq_of_forall_isRow {column' : Nat} {as bs : List Asset} {ls : List String}
    (has : List.Forall₂ (IsRow column) as ls) (hbs : List.Forall₂ (IsRow column') bs ls) : as = bs := by
  induction has generalizing bs with
  | nil =>
    cases hbs
    rfl
  | cons ha _ ih =>
    rcases hbs with _ | ⟨hb, hbs⟩
    rw [ha.eq hb, ih hbs]

/-- A manifest whose table can be read: it has assets, with names, and no white space in names and paths. -/
structure HasReadableTable (m : Manifest) : Prop where
  ne_nil : m.assets ≠ []
  name_ne_empty : ∀ a ∈ m.assets, a.name ≠ ""
  unblank_name : ∀ a ∈ m.assets, Unblank a.name
  unblank_path : ∀ a ∈ m.assets, Unblank a.path

namespace HasReadableTable

/-- Whatever other white space than the space breaks lines, the lines of the table are the rows of the assets. -/
theorem forall_isRow (hm : m.HasReadableTable) {isBreak : Char → Bool} (hbreak : isBreak '\n' = true)
    (hblank : ∀ c, isBreak c = true → isBlank c = true ∧ c ≠ ' ') :
    List.Forall₂ (IsRow m.pathColumn) m.assets (linesAt isBreak m.table) := by
  have hbreakless : ∀ l ∈ m.assets.map (row m.nameWidth), ∀ c ∈ l.toList, isBreak c = false := by
    intro l hl c hc
    obtain ⟨a, ha, rfl⟩ := List.mem_map.1 hl
    have hrow := eq_space_or_not_isBlank_of_mem_row (hm.unblank_name a ha) (hm.unblank_path a ha) hc
    rw [← Bool.not_eq_true]
    intro h
    obtain ⟨hc, hspace⟩ := hblank c h
    exact Bool.false_ne_true ((hrow.resolve_left hspace).symm.trans hc)
  rw [table, linesAt_intercalate hbreak (by simpa using hm.ne_nil) hbreakless, List.forall₂_map_right_iff,
    List.forall₂_same]
  intro a ha
  exact isRow_row (hm.name_ne_empty a ha) (hm.unblank_name a ha) (hm.unblank_path a ha) (length_name_le_nameWidth ha)

theorem eq_of_table_eq (hm : m.HasReadableTable) (hn : n.HasReadableTable) (h : m.table = n.table) : m = n := by
  have hbreak : ∀ c, (c == '\n') = true → isBlank c = true ∧ c ≠ ' ' := by
    intro c hc
    rw [beq_iff_eq.1 hc]
    decide
  have hrows := hm.forall_isRow rfl hbreak
  rw [h] at hrows
  have hrows' := hn.forall_isRow rfl hbreak
  exact congrArg Manifest.mk (eq_of_forall_isRow hrows hrows')

end HasReadableTable

/-- The table of assets without white space is read back from its lines, one for each asset in manifest order, with
all load paths from one column on. So it determines the manifest. -/
theorem table_reads_back (hm : m.HasReadableTable) :
    (∀ isBreak : Char → Bool, isBreak '\n' = true → (∀ c, isBreak c = true → isBlank c = true ∧ c ≠ ' ') →
        List.Forall₂ (IsRow m.pathColumn) m.assets (linesAt isBreak m.table)) ∧
      ∀ n : Manifest, n.HasReadableTable → m.table = n.table → m = n :=
  ⟨fun _ => hm.forall_isRow, fun _ => hm.eq_of_table_eq⟩

/-- Names of two widths, one of them not in ASCII, and an empty path. -/
theorem table_reads_back_two_widths :
    let m : Manifest := ⟨[⟨.texture, "Troll", "monster/zombie_1"⟩, ⟨.sound, "É", ""⟩]⟩
    let n : Manifest := ⟨[⟨.texture, "Troll", "monster/zombie_1"⟩, ⟨.sound, "É", "."⟩]⟩
    m.HasReadableTable ∧ n.HasReadableTable ∧
      m.table = "texture Troll ./assets/img/monster/zombie_1.png\nsound   É     ./assets/sound/.mp3" ∧
      List.Forall₂ (IsRow 14) m.assets (linesAt (fun c => isBlank c && c != ' ') m.table) ∧ m.table ≠ n.table := by
  intro m n
  have hm : m.HasReadableTable := ⟨by decide, by decide, by decide, by decide⟩
  have hn : n.HasReadableTable := ⟨by decide, by decide, by decide, by decide⟩
  have hcolumn : m.pathColumn = 14 := by decide
  have hbreak : ∀ c, (isBlank c && c != ' ') = true → isBlank c = true ∧ c ≠ ' ' := by simp
  obtain ⟨hrows, hinjective⟩ := table_reads_back hm
  refine ⟨hm, hn, by decide, ?_, fun h => absurd (hinjective n hn h) (by decide)⟩
  exact hcolumn ▸ hrows (fun c => isBlank c && c != ' ') (by decide) hbreak

end Manifest

end TypedAssets
