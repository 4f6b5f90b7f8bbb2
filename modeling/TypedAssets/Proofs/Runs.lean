import TypedAssets.Command.Run
import TypedAssets.Proofs.Generation
import TypedAssets.Proofs.Switches

/-!
# What a run of the command leaves behind

Flags decide all that a run leaves behind (`runOn_eq`): what it puts out, the notices that a quiet run leaves
out, the complaints that it keeps, and its status. `run_outcome` says so of switches, and that no arguments
whatever make a run put out something and fail.
-/

namespace TypedAssets.Command

variable {m : Manifest} {args : List String} {flags : List Flag}

theorem lines_append (ls ls' : List String) : lines (ls ++ ls') = lines ls ++ lines ls' := by
  rw [lines, List.map_append, String.join_append]
  rfl

theorem lines_cons (line : String) (ls : List String) :
    lines (line :: ls) = line ++ "\n" ++ lines ls := by
  rw [lines, List.map_cons, String.join_cons]
  rfl

theorem lines_intercalate (line : String) (ls : List String) :
    lines ["\n".intercalate (line :: ls)] = lines (line :: ls) := by
  induction ls generalizing line with
  | nil => rw [String.intercalate_singleton]
  | cons next ls ih =>
    rw [lines_cons line, ← ih next, String.intercalate_cons_cons, lines_cons, lines_cons]
    simp only [String.append_assoc]

/-- A manifest is rejected: it is to be validated, and it has problems. -/
def Rejected (flags : List Flag) (m : Manifest) : Prop :=
  .listAssets ∉ flags ∧ .skipValidation ∉ flags ∧ ¬m.Valid

instance (flags : List Flag) (m : Manifest) : Decidable (Rejected flags m) :=
  inferInstanceAs (Decidable (_ ∧ _ ∧ _))

/-- A line that informs, and reports no error. -/
def IsNotice (m : Manifest) (line : String) : Prop := line = validating ∨ line = summary m

/-- The lines that a run writes to the error output unless it is quiet. -/
def notices (flags : List Flag) (m : Manifest) : List String :=
  if .listAssets ∈ flags then []
  else
    (if .skipValidation ∈ flags then [] else [validating]) ++
      if Rejected flags m then [] else [summary m]

/-- What is said of a manifest that is rejected. -/
def rejection (m : Manifest) : List String :=
  "Error: Manifest validation failed:" :: m.problems.map Problem.message

/-- The lines that a run writes to the error output whether or not it is quiet. -/
def complaints (flags : List Flag) (m : Manifest) : List String :=
  if Rejected flags m then rejection m else []

theorem message?_ofManifest (m : Manifest) :
    (Report.ofManifest (.ok Schema.manifest) m).message? =
      if m.Valid then none else some ("\n".intercalate (m.problems.map Problem.message)) := by
  have hproblems : m.problemsUnder Schema.manifest = m.problems := rfl
  rw [Report.ofManifest, hproblems]
  by_cases hvalid : m.Valid
  · have hnil : m.problems = [] := hvalid
    rw [if_pos hvalid, hnil]
    rfl
  · obtain ⟨p, ps, hcons⟩ := List.exists_cons_of_ne_nil hvalid
    rw [if_neg hvalid, hcons]
    rfl

theorem lines_rejection (hvalid : ¬m.Valid) (ls : List String) :
    lines (ls ++ ["Error: Manifest validation failed:",
      "\n".intercalate (m.problems.map Problem.message)]) = lines (ls ++ rejection m) := by
  obtain ⟨p, ps, hcons⟩ := List.exists_cons_of_ne_nil hvalid
  rw [lines_append, lines_append, rejection, lines_cons _ [_], lines_cons _ (m.problems.map _), hcons,
    List.map_cons, lines_intercalate]

theorem generate_eq {text : String} (htext : m.packText = .ok text) (inform : String → List String)
    (info : List String) : generate inform info m = ⟨text, lines (info ++ inform (summary m)), 0⟩ := by
  rw [generate, htext]

theorem runOn_eq {text : String} (htext : m.packText = .ok text) (flags : List Flag) :
    runOn flags m =
      ⟨if .listAssets ∈ flags then m.table ++ "\n" else if Rejected flags m then "" else text,
        lines ((if .quiet ∈ flags then [] else notices flags m) ++ complaints flags m),
        if Rejected flags m then 1 else 0⟩ := by
  rw [runOn, generate_eq htext, generate_eq htext, message?_ofManifest]
  by_cases hlist : .listAssets ∈ flags
  · have hr : ¬Rejected flags m := fun h => h.1 hlist
    simp [hlist, hr, notices, complaints, lines]
  by_cases hskip : .skipValidation ∈ flags
  · have hr : ¬Rejected flags m := fun h => h.2.1 hskip
    simp [hlist, hskip, hr, notices, complaints]
  by_cases hvalid : m.Valid
  · have hr : ¬Rejected flags m := fun h => h.2.2 hvalid
    simp only [hlist, hskip, hr, hvalid, notices, complaints, if_true, if_false]
    by_cases hquiet : .quiet ∈ flags <;> simp [hquiet]
  · have hr : Rejected flags m := ⟨hlist, hskip, hvalid⟩
    simp only [hlist, hskip, hr, hvalid, notices, complaints, if_true, if_false, failed,
      List.append_nil, lines_rejection hvalid]

/-- Quietness has no part in what a run is but for its notices. -/
theorem rejected_congr {flags flags' : List Flag} (hlist : .listAssets ∈ flags ↔ .listAssets ∈ flags')
    (hskip : .skipValidation ∈ flags ↔ .skipValidation ∈ flags') :
    (Rejected flags m ↔ Rejected flags' m) ∧ notices flags m = notices flags' m ∧
      complaints flags m = complaints flags' m := by
  have hr : Rejected flags m ↔ Rejected flags' m := by rw [Rejected, Rejected, hlist, hskip]
  simp only [notices, complaints, hr, hlist, hskip, and_self]

theorem isNotice_of_mem_notices {line : String} (h : line ∈ notices flags m) : IsNotice m line := by
  rw [notices] at h
  split at h
  · simp at h
  · rcases List.mem_append.1 h with h | h <;> split at h
    · simp at h
    · exact .inl (List.mem_singleton.1 h)
    · simp at h
    · exact .inr (List.mem_singleton.1 h)

theorem runOn_congr {text : String} (htext : m.packText = .ok text) {flags flags' : List Flag}
    (hlist : .listAssets ∈ flags ↔ .listAssets ∈ flags')
    (hskip : .skipValidation ∈ flags ↔ .skipValidation ∈ flags')
    (hquiet : .quiet ∈ flags ↔ .quiet ∈ flags') : runOn flags m = runOn flags' m := by
  obtain ⟨hr, hnotices, hcomplaints⟩ := rejected_congr (m := m) hlist hskip
  rw [runOn_eq htext flags, runOn_eq htext flags']
  simp only [hlist, hr, hnotices, hcomplaints, hquiet]

/-- What two runs have in common that differ in quietness only. -/
theorem runOn_quiet {text : String} (htext : m.packText = .ok text) {flags flags' : List Flag}
    (hlist : .listAssets ∈ flags ↔ .listAssets ∈ flags')
    (hskip : .skipValidation ∈ flags ↔ .skipValidation ∈ flags')
    (hloud : .quiet ∉ flags) (hquiet : .quiet ∈ flags') :
    (runOn flags' m).stdout = (runOn flags m).stdout ∧ (runOn flags' m).exit = (runOn flags m).exit ∧
      (runOn flags m).stderr = lines (notices flags m ++ complaints flags m) ∧
        (runOn flags' m).stderr = lines (complaints flags m) := by
  obtain ⟨hr, -, hcomplaints⟩ := rejected_congr (m := m) hlist hskip
  rw [runOn_eq htext flags, runOn_eq htext flags']
  simp only [hlist, hr, hcomplaints, if_pos hquiet, if_neg hloud, List.nil_append, and_self]

/-- Without problems there is nothing that skipping the validation could change. -/
theorem runOn_skip {text : String} (htext : m.packText = .ok text) (hvalid : m.Valid)
    {flags flags' : List Flag} (hlist : .listAssets ∈ flags ↔ .listAssets ∈ flags') :
    (runOn flags' m).stdout = (runOn flags m).stdout ∧
      (runOn flags' m).exit = (runOn flags m).exit := by
  have hr (flags : List Flag) : ¬Rejected flags m := fun h => h.2.2 hvalid
  rw [runOn_eq htext flags, runOn_eq htext flags']
  simp only [hlist, hr, if_false, and_self]

/-- A text begins with another. -/
def Begins (start s : String) : Prop := start.toList <+: s.toList

theorem Begins.refl (s : String) : Begins s s := List.prefix_rfl

theorem Begins.append {start s : String} (h : Begins start s) (t : String) : Begins start (s ++ t) := by
  rw [Begins, String.toList_append]
  exact h.trans (List.prefix_append _ _)

/-- How notices begin. -/
def noticeStarts : List String := [validating, "Generated "]

/-- How complaints begin. -/
def complaintStarts : List String :=
  ["Error: Manifest validation failed:", "Validation error at ", "Duplicate asset name: ", "Asset name ",
    "Asset names "]

theorem IsNotice.begins {line : String} (h : IsNotice m line) :
    ∃ start ∈ noticeStarts, Begins start line := by
  rcases h with rfl | rfl
  · exact ⟨validating, by simp [noticeStarts], .refl _⟩
  · exact ⟨"Generated ", by simp [noticeStarts], (((Begins.refl _).append _).append _).append _⟩

theorem message_begins (p : Problem) : ∃ start ∈ complaintStarts, Begins start p.message := by
  cases p with
  | schema p =>
    exact ⟨"Validation error at ", by simp [complaintStarts], (((Begins.refl _).append _).append _).append _⟩
  | naming p =>
    cases p with
    | duplicate =>
      exact ⟨"Duplicate asset name: ", by simp [complaintStarts],
        ((((Begins.refl _).append _).append _).append _).append _⟩
    | keyword =>
      exact ⟨"Asset name ", by simp [complaintStarts],
        ((((Begins.refl _).append _).append _).append _).append _⟩
    | collision =>
      exact ⟨"Asset names ", by simp [complaintStarts],
        ((((((Begins.refl _).append _).append _).append _).append _).append _).append _⟩
    | reserved =>
      exact ⟨"Asset name ", by simp [complaintStarts], ((Begins.refl _).append _).append _⟩

theorem complaint_begins {line : String} (h : line ∈ complaints flags m) :
    ∃ start ∈ complaintStarts, Begins start line := by
  rw [complaints] at h
  split at h
  · rcases List.mem_cons.1 h with rfl | h
    · exact ⟨_, by simp [complaintStarts], .refl _⟩
    · obtain ⟨p, -, rfl⟩ := List.mem_map.1 h
      exact message_begins p
  · simp at h

theorem starts_apart : ∀ s ∈ noticeStarts, ∀ t ∈ complaintStarts,
    ¬s.toList <+: t.toList ∧ ¬t.toList <+: s.toList := by
  decide +kernel

theorem not_isNotice_of_mem_complaints {line : String} (h : line ∈ complaints flags m) :
    ¬IsNotice m line := by
  intro hnotice
  obtain ⟨s, hs, hsl⟩ := hnotice.begins
  obtain ⟨t, ht, htl⟩ := complaint_begins h
  obtain ⟨hst, hts⟩ := starts_apart s hs t ht
  exact (List.prefix_or_prefix_of_prefix hsl htl).elim hst hts

/-! ### Runs -/

theorem run_switches (h : OnlySwitches args) (m : Manifest) :
    run args (.ok m) = runOn (args.map flagOf) m := by
  rw [run, parse_switches h]

theorem lines_ne_empty {line : String} {ls : List String} (h : line ∈ ls) : lines ls ≠ "" := by
  obtain ⟨before, after, rfl⟩ := List.append_of_mem h
  simp [lines_append, lines_cons]

/-- A run succeeds with a whole text for its output, or it fails with none. -/
theorem run_whole {text : String} (htext : m.packText = .ok text) (args : List String) :
    ((run args (.ok m)).exit = 0 ∧ (run args (.ok m)).stdout ∈ [help, m.table ++ "\n", text]) ∨
      ((run args (.ok m)).exit ≠ 0 ∧ (run args (.ok m)).stdout = "" ∧ (run args (.ok m)).stderr ≠ "") := by
  rw [run]
  cases parse args with
  | error e =>
    have hnonzero : (refused e).exit ≠ 0 := Nat.succ_ne_zero 1
    exact .inr ⟨hnonzero, rfl, lines_ne_empty List.mem_cons_self⟩
  | ok r =>
    cases r with
    | help => exact .inl ⟨rfl, by simp⟩
    | run flags =>
      simp only [runOn_eq htext flags]
      by_cases hr : Rejected flags m
      · refine .inr ⟨by simp [hr], by simp [hr, hr.1], ?_⟩
        rw [complaints, if_pos hr, rejection]
        exact lines_ne_empty (List.mem_append_right _ List.mem_cons_self)
      · rw [if_neg hr, if_neg hr]
        refine .inl ⟨rfl, ?_⟩
        split <;> simp

section

variable {text : String} (htext : m.packText = .ok text) (h : OnlySwitches args)
include htext h

theorem run_listing (hlist : "--list-assets" ∈ args) : run args (.ok m) = ⟨m.table ++ "\n", "", 0⟩ := by
  have hlist' := (mem_flags_iff h).2.1.2 hlist
  have hr : ¬Rejected (args.map flagOf) m := fun hr => hr.1 hlist'
  rw [run_switches h, runOn_eq htext]
  simp [hlist', hr, notices, complaints, lines]

theorem run_rejected (hlist : "--list-assets" ∉ args) (hskip : "--skip-validation" ∉ args)
    (hproblems : m.problems ≠ []) :
    run args (.ok m) = ⟨"", lines ((if Quiet args then [] else [validating]) ++ rejection m), 1⟩ := by
  obtain ⟨hskip', hlist', hquiet⟩ := mem_flags_iff h
  have hr : Rejected (args.map flagOf) m := ⟨mt hlist'.1 hlist, mt hskip'.1 hskip, hproblems⟩
  rw [run_switches h, runOn_eq htext]
  simp only [hlist', hskip', hquiet, hlist, hskip, hr, notices, complaints, if_true, if_false,
    List.append_nil]

theorem run_generates (hlist : "--list-assets" ∉ args)
    (hclear : "--skip-validation" ∈ args ∨ m.problems = []) :
    run args (.ok m) =
      ⟨text, lines (if Quiet args then [] else
        (if "--skip-validation" ∈ args then [] else [validating]) ++ [summary m]), 0⟩ := by
  obtain ⟨hskip', hlist', hquiet⟩ := mem_flags_iff h
  have hr : ¬Rejected (args.map flagOf) m := fun hr =>
    hclear.elim (fun hskip => hr.2.1 (hskip'.2 hskip)) hr.2.2
  rw [run_switches h, runOn_eq htext]
  simp only [hlist', hskip', hquiet, hlist, hr, notices, complaints, if_false, List.append_nil]

end

/-- Switches in any order and number make a run put out the table, or reject the manifest, or put out the
module. Quietness takes the notices away and nothing else, validation does not matter to a manifest without
problems, and whatever the arguments are, a run that fails puts out nothing and says why. -/
theorem run_outcome (m : Manifest) :
    ∃ text, m.packText = .ok text ∧
      (∀ args : List String, OnlySwitches args →
        ("--list-assets" ∈ args → run args (.ok m) = ⟨m.table ++ "\n", "", 0⟩) ∧
        ("--list-assets" ∉ args → "--skip-validation" ∉ args → m.problems ≠ [] →
          run args (.ok m) =
            ⟨"", lines ((if Quiet args then [] else [validating]) ++ rejection m), 1⟩) ∧
        ("--list-assets" ∉ args → "--skip-validation" ∈ args ∨ m.problems = [] →
          run args (.ok m) =
            ⟨text, lines (if Quiet args then [] else
              (if "--skip-validation" ∈ args then [] else [validating]) ++ [summary m]), 0⟩)) ∧
      (∀ args args' : List String, OnlySwitches args → OnlySwitches args' →
        ("--list-assets" ∈ args ↔ "--list-assets" ∈ args') →
        ("--skip-validation" ∈ args ↔ "--skip-validation" ∈ args') →
          ((Quiet args ↔ Quiet args') → run args (.ok m) = run args' (.ok m)) ∧
          (¬Quiet args → Quiet args' →
            (run args' (.ok m)).stdout = (run args (.ok m)).stdout ∧
            (run args' (.ok m)).exit = (run args (.ok m)).exit ∧
            ∃ info errors : List String, (∀ line ∈ info, IsNotice m line) ∧
              (∀ line ∈ errors, ¬IsNotice m line) ∧ (run args (.ok m)).stderr = lines (info ++ errors) ∧
              (run args' (.ok m)).stderr = lines errors)) ∧
      (m.problems = [] → ∀ args args' : List String, OnlySwitches args → OnlySwitches args' →
        ("--list-assets" ∈ args ↔ "--list-assets" ∈ args') →
          (run args' (.ok m)).stdout = (run args (.ok m)).stdout ∧
          (run args' (.ok m)).exit = (run args (.ok m)).exit) ∧
      ∀ args : List String,
        ((run args (.ok m)).exit = 0 ∧ (run args (.ok m)).stdout ∈ [help, m.table ++ "\n", text]) ∨
          ((run args (.ok m)).exit ≠ 0 ∧ (run args (.ok m)).stdout = "" ∧
            (run args (.ok m)).stderr ≠ "") := by
  obtain ⟨text, htext⟩ := Pack.packText_ok m
  refine ⟨text, htext, fun args h => ⟨run_listing htext h, run_rejected htext h, run_generates htext h⟩,
    fun args args' h h' hlist hskip => ⟨fun hquiet => ?_, fun hloud hquiet => ?_⟩,
    fun hproblems args args' h h' hlist => ?_, run_whole htext⟩
  all_goals
    obtain ⟨hs, hl, hq⟩ := mem_flags_iff h
    obtain ⟨hs', hl', hq'⟩ := mem_flags_iff h'
    rw [run_switches h, run_switches h']
    rw [← hl, ← hl'] at hlist
  · rw [← hs, ← hs'] at hskip
    rw [← hq, ← hq'] at hquiet
    exact runOn_congr htext hlist hskip hquiet
  · rw [← hs, ← hs'] at hskip
    obtain ⟨hout, hexit, herr, herr'⟩ := runOn_quiet htext hlist hskip (mt hq.1 hloud) (hq'.2 hquiet)
    exact ⟨hout, hexit, _, _, fun _ => isNotice_of_mem_notices, fun _ => not_isNotice_of_mem_complaints,
      herr, herr'⟩
  · exact runOn_skip htext hproblems hlist

/-- Two assets share a name: the run fails, quiet or not, until validation is skipped; for one of them
alone it makes no difference. -/
theorem run_outcome_shared_name :
    let shared : Manifest := ⟨[⟨.sound, "Hit", "hit"⟩, ⟨.texture, "Hit", "hit"⟩]⟩
    let alone : Manifest := ⟨[⟨.sound, "Hit", "hit"⟩]⟩
    OnlySwitches [] ∧ OnlySwitches ["-q", "--quiet"] ∧ OnlySwitches ["-q", "--skip-validation"] ∧
      ¬Quiet [] ∧ Quiet ["-q", "--quiet"] ∧ shared.problems ≠ [] ∧ alone.problems = [] ∧
      run [] (.ok shared) =
        ⟨"", lines ["Validating manifest...", "Error: Manifest validation failed:",
          "Duplicate asset name: Hit (used 2 times)"], 1⟩ ∧
      (run ["-q", "--quiet"] (.ok shared)).exit = 1 ∧
      (∃ text, shared.packText = .ok text ∧
        run ["-q", "--skip-validation"] (.ok shared) = ⟨text, "", 0⟩) ∧
      (run ["-q", "--skip-validation"] (.ok alone)).stdout = (run [] (.ok alone)).stdout := by
  intro shared alone
  have hnone : OnlySwitches [] := by simp [OnlySwitches]
  have hquiet : OnlySwitches ["-q", "--quiet"] := by simp [OnlySwitches, switches]
  have hskip : OnlySwitches ["-q", "--skip-validation"] := by simp [OnlySwitches, switches]
  have hproblems : shared.problems ≠ [] := show ¬shared.Valid by decide +kernel
  have hvalid : alone.problems = [] := show alone.Valid by decide +kernel
  have hrejection : rejection shared =
      ["Error: Manifest validation failed:", "Duplicate asset name: Hit (used 2 times)"] := by
    decide +kernel
  obtain ⟨text, htext, houtcome, hpair, -, -⟩ := run_outcome shared
  have hrejected : run [] (.ok shared) = ⟨"", lines ([validating] ++ rejection shared), 1⟩ :=
    (houtcome [] hnone).2.1 (by simp) (by simp) hproblems
  refine ⟨hnone, hquiet, hskip, by decide, by decide, hproblems, hvalid, ?_, ?_, ⟨text, htext, ?_⟩, ?_⟩
  · rw [hrejected, hrejection]
    rfl
  · have hsame := (hpair [] ["-q", "--quiet"] hnone hquiet (by simp) (by simp)).2 (by decide) (by decide)
    rw [hsame.2.1, hrejected]
  · have hgenerates := (houtcome ["-q", "--skip-validation"] hskip).2.2 (by simp) (by simp)
    rw [hgenerates]
    rfl
  · obtain ⟨-, -, -, -, hsame, -⟩ := run_outcome alone
    exact (hsame hvalid [] ["-q", "--skip-validation"] hnone hskip (by simp)).1

end TypedAssets.Command
