import FatJar.Assembly.Assembler

namespace FatJar

structure Session where
  assembler : Assembler
  tree : FileTree
  state : AssemblyState := .idle
  cancelled : Bool := false

namespace Session

inductive Step where
  | run (conditions : Assembler.Conditions)
  | cancel
  | put (path : String) (content : Bytes)
  | remove (path : String)

def step (s : Session) : Step → Session × Option (Except AssemblyError Assembler.Report)
  | .run conditions =>
    let (tree, result) :=
      s.assembler.run s.tree
        { conditions with cancelled := fun p => s.cancelled || conditions.cancelled p }
    let state := match result with
      | .ok _ => .done
      | .error _ => .failed
    ({ s with tree, state }, some result)
  | .cancel => ({ s with cancelled := true }, none)
  | .put path content => ({ s with tree := s.tree.putFile path content }, none)
  | .remove path => ({ s with tree := s.tree.removePath path }, none)

end Session

end FatJar
