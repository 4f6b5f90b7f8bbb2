import TypedAssets.Command.Options
import TypedAssets.Manifest.Table
import TypedAssets.Pack.Module
import TypedAssets.Validation

/-!
# The command

The command writes the module of a manifest to its output, or the asset table if that is asked for.
A manifest is validated first unless that is skipped. Whatever is not the result itself goes to the
error output, and a run that fails writes nothing else.
-/

namespace TypedAssets.Command

/-- What a run leaves behind. -/
structure Outcome where
  stdout : String
  stderr : String
  exit : Nat
  deriving DecidableEq, Repr

/-- Each text on a line of its own. -/
def lines (ss : List String) : String := String.join (ss.map (· ++ "\n"))

def usage : String :=
  "usage: asset-pack-codegen [-h] [--skip-validation] [--list-assets] [--quiet]"

def help : String :=
  lines
    [usage, "",
      "Generate the Gen.AssetPack Elm module for the game's assets",
      "",
      "options:",
      "  -h, --help         show this help message and exit",
      "  --skip-validation  Generate even if asset names would collide in the",
      "                     generated module",
      "  --list-assets      Print kind, name and load path of every asset instead of",
      "                     generating code",
      "  --quiet, -q        Only report errors on stderr",
      "",
      "Examples:",
      "  # Regenerate the module",
      "  asset-pack-codegen > src/Gen/AssetPack.elm",
      "",
      "  # Show which files the module will load",
      "  asset-pack-codegen --list-assets",
      "        "]

/-- A run refused because of its command line. -/
def refused (e : UsageError) : Outcome :=
  ⟨"", lines [usage, "asset-pack-codegen: error: " ++ e.message], 2⟩

/-- A run that failed: its information lines, then what went wrong. -/
def failed (info problems : List String) : Outcome := ⟨"", lines (info ++ problems), 1⟩

/-- The line that announces the validation. -/
def validating : String := "Validating manifest..."

/-- The line that sums a generated module up. -/
def summary (m : Manifest) : String :=
  "Generated " ++ toString m.packModule.declarations.length ++ " declarations for " ++
    ", ".intercalate (Kind.all.map fun k => toString (m.count k) ++ " " ++ k.word ++ "s")

/-- The failure of a generation. -/
def generationFailed (reason : String) : String := "Error: Failed to generate module: " ++ reason

/-- The generation of a module, after some information lines; `inform` makes more of them. -/
def generate (inform : String → List String) (info : List String) (m : Manifest) : Outcome :=
  match m.packText with
  | .error e => failed info [generationFailed e.message]
  | .ok text => ⟨text, lines (info ++ inform (summary m)), 0⟩

/-- A run over a manifest under some flags. -/
def runOn (flags : List Flag) (m : Manifest) : Outcome :=
  let inform (line : String) : List String := if .quiet ∈ flags then [] else [line]
  if .listAssets ∈ flags then ⟨lines [m.table], "", 0⟩
  else if .skipValidation ∈ flags then generate inform [] m
  else
    match (Report.ofManifest (.ok Schema.manifest) m).message? with
    | none => generate inform (inform validating) m
    | some message => failed (inform validating) ["Error: Manifest validation failed:", message]

/-- A run with some arguments over a manifest whose names may be unreadable. -/
def run (args : List String) (manifest : Except UnreadableName Manifest) : Outcome :=
  match parse args with
  | .error e => refused e
  | .ok .help => ⟨help, "", 0⟩
  | .ok (.run flags) =>
    match manifest with
    | .error e => failed [] [generationFailed e.message]
    | .ok m => runOn flags m

end TypedAssets.Command
