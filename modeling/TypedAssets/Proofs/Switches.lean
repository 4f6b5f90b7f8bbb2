import TypedAssets.Command.Options

/-!
# Switches

Arguments that spell a flag in full, in any order and number: they always parse, to the flags that they
spell (`parse_switches`), and which flags these are is a matter of membership (`mem_flags_iff`).
-/

namespace TypedAssets.Command

variable {args : List String}

/-- The arguments that turn on a flag other than help, spelled in full. -/
def switches : List String := ["--skip-validation", "--list-assets", "--quiet", "-q"]

/-- Arguments that are all switches. -/
def OnlySwitches (args : List String) : Prop := ∀ arg ∈ args, arg ∈ switches

/-- The flag that an argument turns on, if it spells one. -/
def flagOf (arg : String) : Flag := (options.lookup arg).getD .help

def Argument.ofSpelling (arg : String) : Argument :=
  if arg.toList.take 2 = ['-', '-'] then .long (flagOf arg) none else .short (flagOf arg) none

theorem ofString_spelling {f : Flag} {arg : String} (h : options.lookup arg = some f) :
    Argument.ofString arg = .ok (.ofSpelling arg) := by
  simp [Argument.ofString, spelled?, h, Argument.ofSpelling, flagOf]

theorem flags_ofSpelling (arg : String) : (Argument.ofSpelling arg).flags = .ok [flagOf arg] := by
  rw [Argument.ofSpelling]
  split <;> rfl

theorem leftover?_ofSpelling (arg : String) : (Argument.ofSpelling arg).leftover? = none := by
  rw [Argument.ofSpelling]
  split <;> rfl

theorem lookup_switch {arg : String} (h : arg ∈ switches) :
    options.lookup arg = some (flagOf arg) ∧ flagOf arg ≠ .help := by
  revert arg
  decide +kernel

theorem readArguments_switches (h : OnlySwitches args) :
    readArguments args = .ok (args.map .ofSpelling) := by
  induction args with
  | nil => rfl
  | cons arg args ih =>
    obtain ⟨harg, hargs⟩ := List.forall_mem_cons.1 h
    have hdash : arg ≠ "--" := by
      rintro rfl
      exact absurd harg (by decide)
    rw [readArguments, if_neg hdash, ofString_spelling (lookup_switch harg).1, ih hargs]
    rfl

theorem request_switches (h : OnlySwitches args) (flags : List Flag) :
    request flags [] (args.map .ofSpelling) = .ok (.run (flags ++ args.map flagOf)) := by
  induction args generalizing flags with
  | nil => simp [request]
  | cons arg args ih =>
    obtain ⟨harg, hargs⟩ := List.forall_mem_cons.1 h
    have hhelp : Flag.help ∉ [flagOf arg] := by
      simpa using (lookup_switch harg).2.symm
    rw [List.map_cons, request, flags_ofSpelling, leftover?_ofSpelling]
    simp only [bind, Except.bind, if_neg hhelp]
    rw [Option.toList_none, List.append_nil, ih hargs, List.append_assoc]
    rfl

/-- Switches in any order and number parse. -/
theorem parse_switches (h : OnlySwitches args) :
    parse args = .ok (.run (args.map flagOf)) := by
  rw [parse, readArguments_switches h]
  exact request_switches h []

/-- Whether some arguments ask for quietness. -/
def Quiet (args : List String) : Prop := "--quiet" ∈ args ∨ "-q" ∈ args

instance (args : List String) : Decidable (Quiet args) :=
  inferInstanceAs (Decidable ("--quiet" ∈ args ∨ "-q" ∈ args))

theorem flagOf_eq_iff {arg : String} (h : arg ∈ switches) :
    (flagOf arg = .skipValidation ↔ arg = "--skip-validation") ∧
      (flagOf arg = .listAssets ↔ arg = "--list-assets") ∧
        (flagOf arg = .quiet ↔ arg = "--quiet" ∨ arg = "-q") := by
  revert arg
  decide +kernel

theorem mem_flags_iff (h : OnlySwitches args) :
    (.skipValidation ∈ args.map flagOf ↔ "--skip-validation" ∈ args) ∧
      (.listAssets ∈ args.map flagOf ↔ "--list-assets" ∈ args) ∧
        (.quiet ∈ args.map flagOf ↔ Quiet args) := by
  have key {f : Flag} {p : String → Prop} (hp : ∀ arg ∈ switches, flagOf arg = f ↔ p arg) :
      f ∈ args.map flagOf ↔ ∃ arg ∈ args, p arg := by
    rw [List.mem_map]
    exact exists_congr fun arg => and_congr_right fun harg => hp arg (h arg harg)
  refine ⟨?_, ?_, ?_⟩
  · rw [key fun arg harg => (flagOf_eq_iff harg).1]
    simp
  · rw [key fun arg harg => (flagOf_eq_iff harg).2.1]
    simp
  · rw [key fun arg harg => (flagOf_eq_iff harg).2.2, Quiet]
    simp [and_or_left, exists_or]

end TypedAssets.Command
