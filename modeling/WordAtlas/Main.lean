import WordAtlas.CommandLine

/-!
# The program

Carries out what `CommandLine.run` says for the arguments and the environment of the process.
-/

namespace WordAtlas

/-- The values of the variables that the program looks at. -/
def readEnvironment : IO (String → Option String) := do
  let names := OverlaySet.listVariable :: Overlay.all.map OverlaySet.switchVariable
  let held ← names.mapM fun name => do return (name, ← IO.getEnv name)
  return fun name => (held.lookup name).join

end WordAtlas

/-- Runs the program on its arguments. -/
def main (arguments : List String) : IO UInt32 := do
  let effect := WordAtlas.CommandLine.run (← WordAtlas.readEnvironment) arguments
  IO.eprint effect.stderr
  if let some (path, text) := effect.file then
    IO.FS.writeFile path text
  IO.print effect.stdout
  return effect.exitCode.toUInt32
