import FatJar.Scan

namespace FatJar

def Defect.isOfEntry : Defect → Bool
  | unreachable _ | unreadableIndex => false
  | unopenable _ | escaping _ | unreadable _ => true

namespace Scan

/-- Whether an event comes of reading an entry; a worker looks before it whether it is to stop. -/
def Event.isOfEntry : Event → Bool
  | .entry _ => true
  | .failed (.corrupt _ defect) => defect.isOfEntry
  | .finished .. | .failed _ => false

structure Worker where
  waiting : Option Event := none
  rest : List Event

def Worker.remaining (w : Worker) : List Event :=
  w.waiting.toList ++ w.rest

/-- Goes on to the next event. A worker that is to stop has one last event instead. -/
def Worker.advance? (stop : Bool) (w : Worker) : Option Worker :=
  match w with
  | ⟨none, e :: rest⟩ =>
    some (if stop && e.isOfEntry then ⟨some (.failed .cancelled), []⟩ else ⟨some e, rest⟩)
  | _ => none

structure System (σ : Type) where
  workers : List Worker
  channel : List Event := []
  taken : List Event := []
  progress : Progress σ
  stopped : Bool := false
  cancelled : Bool

inductive Action where
  | advance (worker : Nat)
  | send (worker : Nat)
  | receive
  | cancel
deriving DecidableEq, Repr

namespace System

variable {σ : Type}

def start (t : FileTree) (archives : List InputArchive) (cancelled : Bool) (state : σ) : System σ where
  workers := if cancelled then [] else archives.map fun a => { rest := events t a }
  progress := { state }
  cancelled

def remaining (s : System σ) : List (List Event) :=
  s.workers.map Worker.remaining

def Ended (s : System σ) : Prop :=
  s.channel = [] ∧ ∀ es ∈ s.remaining, es = []

variable (capacity : Nat) (sink : Sink σ)

/-- The system after an action, if there is occasion for it. The channel has room for one event at
least; a scan without workers is over before it could be cancelled. -/
def step? (s : System σ) : Action → Option (System σ)
  | .advance i => do
    let w ← (← s.workers[i]?).advance? (s.stopped || s.cancelled)
    return { s with workers := s.workers.set i w }
  | .send i =>
    match s.workers[i]? with
    | some ⟨some e, rest⟩ =>
      if s.channel.length < max capacity 1 then
        some { s with workers := s.workers.set i { rest }, channel := s.channel ++ [e] }
      else none
    | _ => none
  | .receive =>
    match s.channel with
    | [] => none
    | e :: channel =>
      let progress := s.progress.take sink e
      some { s with
        channel
        taken := s.taken ++ [e]
        progress
        stopped := s.stopped || progress.failure.isSome }
  | .cancel => if s.cancelled || s.workers.isEmpty then none else some { s with cancelled := true }

def after? (s : System σ) (actions : List Action) : Option (System σ) :=
  actions.foldlM (step? capacity sink) s

def result (s : System σ) : Except AssemblyError (Summary × σ) :=
  s.progress.result fun _ => s.cancelled

end System

end Scan

end FatJar
