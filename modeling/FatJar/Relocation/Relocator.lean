import FatJar.ClassFile.Layout
import FatJar.Entry.Contents
import FatJar.Entry.Registrations
import FatJar.Relocation.Reference
import FatJar.Text.Ascii

namespace FatJar.Relocation

inductive Obstacle where
  | collision (origin : Coordinates)
  | constantTooLong (index length : Nat)
  | unreadableClass (e : ClassFile.PoolError)
  | unreadableAfterwards (e : ClassFile.PoolError)
  | survivor
  | malformedAfterwards
  | binaryReference
deriving DecidableEq, Repr

def Obstacle.reason : Obstacle → String
  | collision origin => "relocated path collides with an entry from " ++ origin.display
  | constantTooLong index length =>
    "constant #" ++ toString index ++ " exceeds the class file limit (" ++ toString length
      ++ " bytes)"
  | unreadableClass e => "cannot be parsed as a class file: " ++ e.message
  | unreadableAfterwards e => e.message
  | survivor => "reference survived the rewrite"
  | malformedAfterwards => "rewritten class does not parse"
  | binaryReference => "binary resource references the namespace and cannot be rewritten"

structure Failure where
  space : String
  path : String
  obstacle : Obstacle
deriving DecidableEq, Repr

structure Stats where
  unitsRelocated : Nat := 0
  unitsChanged : Nat := 0
  referencesReplaced : Nat := 0
  servicesRelocated : Nat := 0
  servicesMerged : Nat := 0
  resourcesRelocated : Nat := 0
  resourcesChanged : Nat := 0
deriving DecidableEq, Repr

structure Relocated where
  member : Member
  moved : Bool := false
  changed : Bool := false
  constants : Nat := 0
deriving DecidableEq, Repr

def textExtensions : List String :=
  ["properties", "xml", "txt", "json", "conf", "yaml", "yml", "mf", "list"]

def splitExtension? (path : String) : Option (List Char × List Char) :=
  (cutAt? '.' path.toList.reverse).map fun p => (p.2.reverse, p.1.reverse)

def isTextResource (path : String) : Bool :=
  match splitExtension? path with
  | none => false
  | some (stem, extension) =>
    stem.getLast? != some '/' && textExtensions.any (Ascii.eqIgnoreCase · (String.ofList extension))

variable (accepts : Bytes → Bool) (rs : RuleSet)

/-- The namespace to name in a failure: the one that the path refers to, or else the payload. -/
def namespaceOf (m : Member) : String :=
  ((rs.find (utf8 m.path)).or (rs.find m.payload)).elim "" Rule.source

/-- The new bytes of a class and the number of constants replaced in it, or nothing when it does not
refer to a source namespace. New bytes that `accepts` refuses are a failure. -/
def replaceInClass (m : Member) (moving : Bool) : Except Failure (Option (Bytes × Nat)) :=
  match ClassFile.replaceUtf8 rs.replace m.payload with
  | .error (.utf8TooLong index length) =>
    .error ⟨namespaceOf rs m, m.path, .constantTooLong index length⟩
  | .error (.pool e) =>
    match rs.find m.payload with
    | some r => .error ⟨r.source, m.path, .unreadableClass e⟩
    | none =>
      if moving then .error ⟨namespaceOf rs m, m.path, .unreadableClass e⟩ else .ok none
  | .ok ⟨bytes, replaced⟩ =>
    if replaced = 0 then .ok none
    else
      match ClassFile.utf8Constants bytes with
      | .error e => .error ⟨namespaceOf rs m, m.path, .unreadableAfterwards e⟩
      | .ok constants =>
        match constants.findSome? rs.find with
        | some r => .error ⟨r.source, m.path, .survivor⟩
        | none =>
          if accepts bytes then .ok (some (bytes, replaced))
          else .error ⟨namespaceOf rs m, m.path, .malformedAfterwards⟩

def moveTo (path : Option String) (r : Relocated) : Relocated :=
  match path with
  | none => r
  | some path => { r with member := { r.member with path }, moved := true }

def setPayload (payload : Option Bytes) (r : Relocated) : Relocated :=
  match payload with
  | none => r
  | some payload => { r with member := { r.member with payload }, changed := true }

def relocateClass (m : Member) : Except Failure Relocated :=
  let path := rs.relocatePath m.path
  match replaceInClass accepts rs m path.isSome with
  | .error e => .error e
  | .ok none => .ok (moveTo path { member := m })
  | .ok (some (payload, constants)) =>
    .ok (moveTo path { setPayload (some payload) { member := m } with constants })

def relocateServiceFile (m : Member) : Relocated :=
  let path :=
    (serviceName? m.path).bind fun name => (rs.relocateName name).map (servicesDir ++ ·)
  setPayload ((rs.replace m.payload).map fun content => Registrations.merge [content])
    (moveTo path { member := m })

/-- In text the references are replaced. Other resources can be moved, but not if they refer to a
source namespace. -/
def relocateResource (m : Member) : Except Failure Relocated :=
  let path := rs.relocatePath m.path
  if isTextResource m.path || Utf8.isValid m.payload then
    .ok (moveTo path (setPayload (rs.replace m.payload) { member := m }))
  else
    match rs.find m.payload with
    | some r => .error ⟨r.source, m.path, .binaryReference⟩
    | none => .ok (moveTo path { member := m })

def relocateMember (m : Member) : Except Failure Relocated :=
  match m.kind with
  | .classFile => relocateClass accepts rs m
  | .serviceFile => .ok (relocateServiceFile rs m)
  | .resource => relocateResource rs m
  | .directory | .signature | .manifest => .ok { member := m }

def Stats.count (s : Stats) (r : Relocated) : Stats :=
  match r.member.kind with
  | .classFile =>
    { s with
      unitsRelocated := s.unitsRelocated + r.moved.toNat
      unitsChanged := s.unitsChanged + r.changed.toNat
      referencesReplaced := s.referencesReplaced + r.constants }
  | .serviceFile => { s with servicesRelocated := s.servicesRelocated + r.moved.toNat }
  | _ =>
    { s with
      resourcesRelocated := s.resourcesRelocated + r.moved.toNat
      resourcesChanged := s.resourcesChanged + r.changed.toNat }

structure Outcome where
  contents : Contents := .empty
  stats : Stats := {}

/-- Puts a relocated member into the output. A service file joins the one at its path; anything
else that finds its path taken is a failure. -/
def Outcome.add (o : Outcome) (r : Relocated) : Except Failure Outcome :=
  let stats := o.stats.count r
  match o.contents.insert? r.member with
  | some contents => .ok ⟨contents, stats⟩
  | none =>
    let failure : Failure :=
      ⟨(rs.targetRule r.member.path).elim "" Rule.source, r.member.path,
        .collision r.member.origin⟩
    match o.contents.get? r.member.path with
    | none => .error failure
    | some existing =>
      if existing.kind = .serviceFile && r.member.kind = .serviceFile then
        let payload := Registrations.merge [existing.payload, r.member.payload]
        .ok ⟨o.contents.setPayload r.member.path payload,
          { stats with servicesMerged := stats.servicesMerged + 1 }⟩
      else .error failure

/-- Relocates all members. Those that stay where they are go in first, so that the providers of a
service file that is moved come after the ones registered there. -/
def relocateWith (c : Contents) : Except Failure Outcome := do
  let all ← c.members.mapM (relocateMember accepts rs)
  (all.filter (!·.moved) ++ all.filter (·.moved)).foldlM (Outcome.add rs) {}

/-- Relocates all members; a changed class has to be laid out as a class file. -/
def relocate (c : Contents) : Except Failure Outcome :=
  relocateWith ClassFile.isWellFormed rs c

end FatJar.Relocation
