import FatJar.Archive.Reader

namespace FatJar.Scan

inductive Event where
  | entry (e : ScannedEntry)
  | finished (entries bytes : Nat)
  | failed (e : AssemblyError)

def scanned (a : InputArchive) (es : List Entry) : List ScannedEntry :=
  es.zipIdx.map fun (e, seq) => ⟨⟨a.rank, seq⟩, a.archive, e⟩

def totalSize (es : List Entry) : Nat :=
  es.foldl (fun n e => n + e.size) 0

def events (t : FileTree) (a : InputArchive) : List Event :=
  match Archive.ofPath t a.path with
  | .error e => [.failed e]
  | .ok archive =>
    let (es, defect) := archive.entries
    let last : Event :=
      match defect with
      | none => .finished es.length (totalSize es)
      | some defect => .failed (.corrupt a.path defect)
    (scanned a es).map .entry ++ [last]

def pick (i : Nat) (streams : List (List Event)) : Option (Event × List (List Event)) :=
  match streams[i]? with
  | some (e :: es) => some (e, streams.set i es)
  | _ => none

/-- An interleaving of the streams: `picks` tells from which stream each event comes. What is left
then follows stream by stream. -/
def interleave : (picks : List Nat) → List (List Event) → List Event
  | [], streams => streams.flatten
  | i :: picks, streams =>
    match pick i streams with
    | none => interleave picks streams
    | some (e, streams) => e :: interleave picks streams

structure Summary where
  archives : Nat := 0
  entries : Nat := 0
  bytes : Nat := 0
deriving DecidableEq, Repr

variable {σ : Type}

abbrev Sink (σ : Type) :=
  σ → ScannedEntry → σ × Except AssemblyError Unit

structure Progress (σ : Type) where
  state : σ
  summary : Summary := {}
  /-- The first failure. From it on workers are told to stop, and the sink gets nothing more. -/
  failure : Option AssemblyError := none

def Progress.take (sink : Sink σ) (p : Progress σ) (e : Event) : Progress σ :=
  match e with
  | .entry e =>
    match p.failure with
    | some _ => p
    | none =>
      match sink p.state e with
      | (state, .ok ()) => { p with state }
      | (state, .error error) => { p with state, failure := some error }
  | .finished entries bytes =>
    let s := p.summary
    { p with summary := ⟨s.archives + 1, s.entries + entries, s.bytes + bytes⟩ }
  | .failed error => { p with failure := some (p.failure.getD error) }

/-- Takes all events, also those after a failure. -/
def consume (sink : Sink σ) (state : σ) (es : List Event) : Progress σ :=
  es.foldl (Progress.take sink) { state }

/-- What a scan comes to after its last event; `cancelled` tells whether the run is cancelled then. -/
def Progress.result (cancelled : σ → Bool) (p : Progress σ) : Except AssemblyError (Summary × σ) :=
  match p.failure with
  | some e => .error e
  | none => if cancelled p.state then .error .cancelled else .ok (p.summary, p.state)

def run (t : FileTree) (picks : List Nat) (archives : List InputArchive) (sink : Sink σ)
    (cancelledBefore : Bool) (cancelledAfter : σ → Bool) (state : σ) :
    Except AssemblyError (Summary × σ) :=
  if cancelledBefore then .error .cancelled
  else (consume sink state (interleave picks (archives.map (events t)))).result cancelledAfter

end FatJar.Scan
