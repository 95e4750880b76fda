import FatJar.Config.Form
import FatJar.Error

namespace FatJar.Config

def textAt? (t : FileTree) (path : String) : Option String :=
  match t.find path with
  | .ok (.file content) => (Utf8.decode? content).map String.ofList
  | _ => none

def ofFile (t : FileTree) (path : String) : Except AssemblyError Config :=
  match textAt? t path with
  | none => .error (.config (.unreadable path))
  | some text =>
    match ofText text with
    | .error fault => .error (.config (.form fault))
    | .ok c => .ok (c.resolvePaths ((Path.parent? path).getD ""))

end FatJar.Config
