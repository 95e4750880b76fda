import FatJar.Command.Outcome

namespace FatJar.Main

def look (t : FileTree) (path : String) : IO FileTree := do
  let place := (← IO.currentDir) / path
  if ← place.isDir then return (t.makeDirectory path).1
  match ← (IO.FS.readBinFile place).toBaseIO with
  | .ok content => return t.putFile path content.toList
  | .error _ => return t

def workingDirectory : IO FileTree := do
  let here := (← IO.currentDir).toString
  let t : FileTree := { workingPlace := (Path.parts here).filter (!Path.isIdle ·), nodes := [] }
  return (t.makeDirectory here).1

def surroundings : Command.Invocation → IO FileTree
  | .version | .help | .misuse => workingDirectory
  | .perform _ task => do
    let first ← (task.paths (← workingDirectory)).foldlM look (← workingDirectory)
    (task.paths first).foldlM look first

def storeFile (path : String) (content : Bytes) : IO Unit := do
  let draft := path ++ ".part"
  IO.FS.writeBinFile draft ⟨content.toArray⟩
  IO.FS.rename draft path

def store (before after : FileTree) : IO Unit :=
  for (place, node) in after.nodes do
    if before.lookup place ≠ some node then
      let path := "/" ++ "/".intercalate place
      match node with
      | .directory => IO.FS.createDirAll path
      | .file content => storeFile path content

def perform (invocation : Command.Invocation) : IO Command.Outcome := do
  let before ← surroundings invocation
  let outcome := invocation.run before {}
  match ← (store before outcome.tree).toBaseIO with
  | .ok () => return outcome
  | .error e =>
    return { exit := AssemblyError.Kind.writeError.exitCode, message := some (toString e),
             tree := before }

end FatJar.Main

open FatJar in
def main (arguments : List String) : IO UInt32 := do
  let start ← IO.monoNanosNow
  let outcome ← Main.perform (.ofArguments arguments)
  let elapsed := (← IO.monoNanosNow) - start
  IO.print (outcome.text ++ outcome.ending elapsed)
  for note in outcome.notes do
    IO.eprintln note
  if let some message := outcome.message then
    IO.eprintln ("Error: " ++ message)
  return outcome.exit
