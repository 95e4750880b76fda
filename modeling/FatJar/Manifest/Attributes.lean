import FatJar.Keyed

namespace FatJar

structure Attributes where
  pairs : List (String × String)
  nodup : (pairs.map Prod.fst).Nodup
deriving DecidableEq

namespace Attributes

def empty : Attributes :=
  ⟨[], List.nodup_nil⟩

instance : Inhabited Attributes :=
  ⟨empty⟩

def put (a : Attributes) (name value : String) : Attributes :=
  ⟨putPair name value a.pairs, nodup_putPair name value a.nodup⟩

def putAll (a : Attributes) (ps : List (String × String)) : Attributes :=
  ps.foldl (fun a p => a.put p.1 p.2) a

def ofList (ps : List (String × String)) : Attributes :=
  empty.putAll ps

def get? (a : Attributes) (name : String) : Option String :=
  a.pairs.lookup name

def mapValues (f : String → String) (a : Attributes) : Attributes :=
  ⟨a.pairs.map fun p => (p.1, f p.2), by simpa [List.map_map, Function.comp_def] using a.nodup⟩

end Attributes

end FatJar
