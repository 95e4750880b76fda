import FatJar.Entry.Contents
import FatJar.Zip.Encoding

namespace FatJar.Output

open Zip (Content Item)

/-- Puts an item into its place among items in order. A file takes the place of a directory of the
same name; otherwise the first item of a name stays. -/
def insertItem (i : Item) : List Item → List Item
  | [] => [i]
  | x :: xs =>
    if utf8 i.name < utf8 x.name then i :: x :: xs
    else if i.name = x.name then
      (match x.content, i.content with
        | .directory, .file _ => i :: xs
        | _, _ => x :: xs)
    else x :: insertItem i xs

/-- The directories that a path names on its way, each with its slash; `before` has what was passed,
the last character first. -/
def directoriesFrom (before : List Char) : List Char → List String
  | [] => []
  | c :: cs =>
    let before := c :: before
    if c = '/' then String.ofList before.reverse :: directoriesFrom before cs
    else directoriesFrom before cs

def directories (path : String) : List String :=
  directoriesFrom [] path.toList

def directoryItem (name : String) : Item :=
  ⟨name, .directory⟩

def insertMember (m : Member) (items : List Item) : List Item :=
  insertItem ⟨m.path, .file m.payload⟩
    ((directories m.path).foldr (fun d items => insertItem (directoryItem d) items) items)

/-- All items behind the manifest. A member in its place would be a second one, and is left out. -/
def layout (c : Contents) : List Item :=
  insertItem (directoryItem metaInf)
    ((c.members.filter (·.path != manifestPath)).foldr insertMember [])

end FatJar.Output
