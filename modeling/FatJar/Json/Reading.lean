import FatJar.Json.Token

namespace FatJar.Json

inductive Reading where
  | null
  | bool (b : Bool)
  | number (x : Numeral)
  | string (s : Option String)
  | array (items : List Reading) (closed : Bool)
  | object (members : List (Reading × Reading)) (closed : Bool)
  | broken
deriving Repr, Inhabited

inductive Frame where
  | array (items : List Reading)
  | object (members : List (Reading × Reading)) (key : Option Reading)

namespace Frame

def add (v : Reading) : Frame → Frame
  | array items => array (v :: items)
  | object ms key => object ((key.getD .broken, v) :: ms) none

/-- The container as a value. A key without a value shows as one with a broken value. -/
def leave (closed : Bool) : Frame → Reading
  | array items => .array items.reverse closed
  | object ms none => .object ms.reverse closed
  | object ms (some key) => .object ((key, .broken) :: ms).reverse closed

end Frame

inductive Expectation where
  | value
  | valueOrEnd
  | key
  | keyOrEnd
  | colon
  | separator
  | nothing
deriving DecidableEq, Repr

structure Reader where
  frames : List Frame := []
  expectation : Expectation := .value
  value : Option Reading := none
  /-- Set by a token that is not expected; all later ones are ignored. -/
  stopped : Bool := false

namespace Reader

def stop (r : Reader) : Reader :=
  { r with stopped := true }

def put (r : Reader) (v : Reading) : Reader :=
  match r.frames with
  | [] => { r with value := some v, expectation := .nothing }
  | f :: fs => { r with frames := f.add v :: fs, expectation := .separator }

def close (r : Reader) : Reader :=
  match r.frames with
  | [] => r.stop
  | f :: fs => ({ r with frames := fs }).put (f.leave true)

def enter (r : Reader) (f : Frame) (e : Expectation) : Reader :=
  { r with frames := f :: r.frames, expectation := e }

def putKey (r : Reader) (k : Reading) : Reader :=
  match r.frames with
  | .object ms _ :: fs => { r with frames := .object ms (some k) :: fs, expectation := .colon }
  | _ => r.stop

def beginning? : Token → Option Reading
  | .null => some .null
  | .bool b => some (.bool b)
  | .number x => some (.number x)
  | .string s => some (.string s)
  | .openArray => some (.array [] false)
  | .openObject => some (.object [] false)
  | .comma | .colon | .closeArray | .closeObject | .fault => none

def takeValue (r : Reader) (t : Token) : Reader :=
  match t with
  | .openArray => r.enter (.array []) .valueOrEnd
  | .openObject => r.enter (.object [] none) .keyOrEnd
  | _ =>
    match beginning? t with
    | some v => r.put v
    | none => r.stop

def takeKey (r : Reader) (t : Token) : Reader :=
  match t, beginning? t with
  | .string _, some k => r.putKey k
  | _, some k => (r.putKey k).stop
  | _, none => r.stop

def takeSeparator (r : Reader) (t : Token) : Reader :=
  match r.frames, t with
  | .array _ :: _, .comma => { r with expectation := .value }
  | .object _ _ :: _, .comma => { r with expectation := .key }
  | .array _ :: _, .closeArray | .object _ _ :: _, .closeObject => r.close
  | _, _ => r.stop

def step (r : Reader) (t : Token) : Reader :=
  if r.stopped then r
  else
    match r.expectation with
    | .value => r.takeValue t
    | .valueOrEnd => if t = .closeArray then r.close else r.takeValue t
    | .key => r.takeKey t
    | .keyOrEnd => if t = .closeObject then r.close else r.takeKey t
    | .colon => if t = .colon then { r with expectation := .value } else r.stop
    | .separator => r.takeSeparator t
    | .nothing => r.stop

def finish (r : Reader) : Reading :=
  (r.frames.foldl
    (fun inner f => some ((match inner with | none => f | some v => f.add v).leave false))
    r.value).getD .broken

end Reader

structure Document where
  value : Reading
  alone : Bool

def read (s : String) : Document :=
  let r := (tokens s.toList).foldl Reader.step {}
  { value := r.finish, alone := !r.stopped }

end FatJar.Json
