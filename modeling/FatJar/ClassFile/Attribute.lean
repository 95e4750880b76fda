import FatJar.ClassFile.Annotation
import FatJar.ClassFile.Code
import FatJar.ClassFile.ModifiedUtf8

namespace FatJar.ClassFile.Layout

open Reader

def fits (flow : Option Flow) (place : Nat) : Bool :=
  flow.all (·.isStart place)

def verificationType : Reader :=
  number 1 fun tag => if tag ≤ 6 then some else if tag ≤ 8 then skip 2 else fail

def stackFrame? (bs : Bytes) : Option (Nat × Bytes) := do
  let (tag, bs) ← number? 1 bs
  if tag < 64 then return (tag, bs)
  else if tag < 128 then return (tag - 64, ← verificationType bs)
  else if tag < 247 then none
  else
    let (ahead, bs) ← number? 2 bs
    if tag = 247 then return (ahead, ← verificationType bs)
    else if tag ≤ 251 then return (ahead, bs)
    else if tag < 255 then return (ahead, ← repeated verificationType (tag - 251) bs)
    else return (ahead, ← both (counted 2 verificationType) (counted 2 verificationType) bs)

def stackFrames (flow : Option Flow) : (count place : Nat) → Reader
  | 0, _, bs => some bs
  | n + 1, place, bs =>
    match stackFrame? bs with
    | none => none
    | some (ahead, rest) =>
      if fits flow (place + ahead) then stackFrames flow n (place + ahead + 1) rest else none

def handler (f : Flow) : Reader :=
  number 2 fun start => number 4 fun stopAndTarget =>
    if f.isStart start && f.isStart (stopAndTarget % 65536) then skip 2 else fail

def text (length : Nat) : Reader :=
  fun bs => (Bytes.cut? length bs).bind fun (bs, rest) => if isModifiedUtf8 bs then some rest else none

def moduleDirective : Reader :=
  both (skip 4) (counted 2 (skip 2))

def moduleBody : Reader :=
  row [skip 6, counted 2 (skip 6), counted 2 moduleDirective, counted 2 moduleDirective,
    counted 2 (skip 2), counted 2 (both (skip 2) (counted 2 (skip 2)))]

def fixedLength? (name : Bytes) : Option Nat :=
  if [utf8 "ConstantValue", utf8 "Signature", utf8 "SourceFile", utf8 "ModuleMainClass",
      utf8 "NestHost"].contains name then some 2
  else if name = utf8 "EnclosingMethod" then some 4
  else if name = utf8 "Synthetic" || name = utf8 "Deprecated" then some 0
  else none

def plainAttribute (flow : Option Flow) (name : Bytes) (length fuel : Nat) : Reader :=
  if let some fixed := fixedLength? name then
    if length = fixed then skip length else fail
  else if [utf8 "Exceptions", utf8 "ModulePackages", utf8 "NestMembers",
      utf8 "PermittedSubclasses"].contains name then counted 2 (skip 2)
  else if name = utf8 "InnerClasses" then counted 2 (skip 8)
  else if name = utf8 "LineNumberTable" then
    counted 2 (number 2 fun start => if fits flow start then skip 2 else fail)
  else if name = utf8 "LocalVariableTable" || name = utf8 "LocalVariableTypeTable" then
    counted 2 (skip 10)
  else if name = utf8 "StackMapTable" then number 2 fun count => stackFrames flow count 0
  else if name = utf8 "RuntimeVisibleAnnotations" || name = utf8 "RuntimeInvisibleAnnotations" then
    counted 2 (annotated fuel)
  else if name = utf8 "RuntimeVisibleParameterAnnotations"
      || name = utf8 "RuntimeInvisibleParameterAnnotations" then
    counted 1 (counted 2 (annotated fuel))
  else if name = utf8 "RuntimeVisibleTypeAnnotations"
      || name = utf8 "RuntimeInvisibleTypeAnnotations" then
    counted 2 (annotatedType fuel)
  else if name = utf8 "AnnotationDefault" then elementValue fuel
  else if name = utf8 "BootstrapMethods" then counted 2 (both (skip 2) (counted 2 (skip 2)))
  else if name = utf8 "MethodParameters" then counted 1 (skip 4)
  else if name = utf8 "Module" then moduleBody
  else if name = utf8 "SourceDebugExtension" then text length
  else skip length

def attributeInfo (names : Array (Option Bytes)) (flow : Option Flow) : (fuel : Nat) → Reader
  | 0 => fail
  | fuel + 1 =>
    number 2 fun index => number 4 fun length bs =>
      match names[index]?.join with
      | none => none
      | some name =>
        let body : Reader :=
          if name = utf8 "Code" then
            both (skip 4) <| number 4 fun codeLength bs =>
              match Bytes.cut? codeLength bs with
              | none => none
              | some (code, bs) =>
                match Flow.ofCode? code with
                | none => none
                | some f =>
                  both (counted 2 (handler f)) (counted 2 (attributeInfo names (some f) fuel)) bs
          else if name = utf8 "Record" then
            counted 2 (both (skip 4) (counted 2 (attributeInfo names none fuel)))
          else plainAttribute flow name length fuel
        body bs

end FatJar.ClassFile.Layout
