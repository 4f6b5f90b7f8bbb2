import TypedAssets.Text.Quoted

/-!
# Options of the command

The command takes flags only. A long option may be shortened to a beginning that fits no other one,
short options may be written together after one dash, and after `--` nothing is an option any more.
No option takes a value: one given with `=`, or with a letter that is no option, is refused.
Whatever is left over is refused too, once everything else has been read. Asking for help ends the
reading at once, but a beginning that fits several options is found out before.
-/

namespace TypedAssets.Command

/-- What an option asks for. -/
inductive Flag where
  | help
  | skipValidation
  | listAssets
  | quiet
  deriving DecidableEq, Repr

namespace Flag

/-- The spellings of an option as messages list them. -/
def spellings : Flag → String
  | .help => "-h/--help"
  | .skipValidation => "--skip-validation"
  | .listAssets => "--list-assets"
  | .quiet => "--quiet/-q"

end Flag

def options : List (String × Flag) :=
  [("-h", .help), ("--help", .help), ("--skip-validation", .skipValidation),
    ("--list-assets", .listAssets), ("--quiet", .quiet), ("-q", .quiet)]

/-- The ways in which a command line can be wrong. -/
inductive UsageError where
  | ambiguous (arg : String) (candidates : List String)
  | ignoredValue (flag : Flag) (value : String)
  | unrecognized (args : List String)
  deriving DecidableEq, Repr

def UsageError.message : UsageError → String
  | .ambiguous arg candidates =>
    "ambiguous option: " ++ arg ++ " could match " ++ ", ".intercalate candidates
  | .ignoredValue flag value =>
    "argument " ++ flag.spellings ++ ": ignored explicit argument " ++ Text.quoted value
  | .unrecognized args => "unrecognized arguments: " ++ " ".intercalate args

/-- What an argument of a command line is: a long option or a letter of a short one, each perhaps
with a value written to it, or something else. -/
inductive Argument where
  | long (flag : Flag) (value : Option String)
  | short (flag : Flag) (value : Option String)
  | other (text : String)
  deriving DecidableEq, Repr

/-- A text cut at its first equals sign, which is dropped. -/
def cutAtEquals (cs : List Char) : List Char × Option String :=
  match cs.dropWhile (· ≠ '=') with
  | [] => (cs, none)
  | _ :: value => (cs.takeWhile (· ≠ '='), some (String.ofList value))

/-- The option with an exact spelling, and the value given to it. -/
def spelled? (cs : List Char) (value : Option String) : Option Argument :=
  (options.lookup (String.ofList cs)).map fun flag =>
    if cs.take 2 = ['-', '-'] then .long flag value else .short flag value

/-- The options with a spelling that begins with some characters. -/
def candidates (start : List Char) : List (String × Flag) :=
  options.filter fun o => start.isPrefixOf o.1.toList

/-- What an argument before `--` is. -/
def Argument.ofString (arg : String) : Except UsageError Argument :=
  let cs := arg.toList
  let (start, value) := cutAtEquals cs
  match (spelled? cs none).or (value.bind fun v => spelled? start (some v)) with
  | some argument => .ok argument
  | none =>
    match cs with
    | '-' :: '-' :: _ =>
      match candidates start with
      | [] => .ok (.other arg)
      | [(_, flag)] => .ok (.long flag value)
      | several => .error (.ambiguous arg (several.map Prod.fst))
    | '-' :: c :: rest => .ok ((spelled? ['-', c] (some (String.ofList rest))).getD (.other arg))
    | _ => .ok (.other arg)

/-- What the arguments of a command line are. -/
def readArguments : List String → Except UsageError (List Argument)
  | [] => .ok []
  | arg :: args =>
    if arg = "--" then .ok ((arg :: args).map .other)
    else return (← Argument.ofString arg) :: (← readArguments args)

/-- The flags of short options that are written together, the first of them read already. -/
def cluster (flag : Flag) : List Char → Except UsageError (List Flag)
  | [] => .ok [flag]
  | c :: cs =>
    match options.lookup (String.ofList ['-', c]) with
    | some next => return flag :: (← cluster next cs)
    | none => .error (.ignoredValue flag (String.ofList (c :: cs)))

def Argument.flags : Argument → Except UsageError (List Flag)
  | .long flag none | .short flag none => .ok [flag]
  | .long flag (some value) => .error (.ignoredValue flag value)
  | .short flag (some value) =>
    if value = "" then .error (.ignoredValue flag value) else cluster flag value.toList
  | .other _ => .ok []

/-- The text of an argument that is no option. -/
def Argument.leftover? : Argument → Option String
  | .other text => some text
  | _ => none

/-- What a command line asks for: help, or a run under some flags. -/
inductive Request where
  | help
  | run (flags : List Flag)
  deriving DecidableEq, Repr

/-- What arguments ask for, after some flags and leftovers before them. -/
def request (flags : List Flag) (leftovers : List String) :
    List Argument → Except UsageError Request
  | [] => if leftovers.isEmpty then .ok (.run flags) else .error (.unrecognized leftovers)
  | a :: as => do
    let more ← a.flags
    if .help ∈ more then return .help
    else request (flags ++ more) (leftovers ++ a.leftover?.toList) as

def parse (args : List String) : Except UsageError Request := do
  request [] [] (← readArguments args)

end TypedAssets.Command
