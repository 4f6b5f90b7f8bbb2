import TypedAssets.Command.Run
import TypedAssets.Manifest.Game

/-!
# The program

Runs the command over the game manifest.
-/

open TypedAssets

def main (args : List String) : IO UInt32 := do
  let outcome := Command.run args (.ok Manifest.game)
  (← IO.getStdout).putStr outcome.stdout
  (← IO.getStderr).putStr outcome.stderr
  return outcome.exit.toUInt32
