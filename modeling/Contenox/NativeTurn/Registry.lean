/-
# The registry of native turns

A turn runs on the registry, not on the connection that started it.  Viewers come and go; when the last
one leaves, a timer starts, and when it fires the turn is torn down: its context is cancelled and it is
removed from the registry.  Tearing a turn down does not wait for its function.

The journal and what is delivered to viewers have no part in a turn's lifetime and are left out.
-/
import Contenox.Lib.Threads
import Mathlib.Data.List.Perm.Basic

namespace Contenox.NativeTurn

open Lib

/-! ## 1. Turns -/

/-- `Config`; durations are nanoseconds. -/
structure Config where
  turnDeadline : Int
  graceWindow : Int
  deriving DecidableEq, Repr

def minute : Int := 60 * 1000000000

variable (cfg : Config)

/-- `New`: what is not positive gets its default. -/
def Config.floor : Config where
  turnDeadline := if cfg.turnDeadline ≤ 0 then 60 * minute else cfg.turnDeadline
  graceWindow := if cfg.graceWindow ≤ 0 then 15 * minute else cfg.graceWindow

/-- `Result`, as far as the registry reads it. -/
structure Result where
  err : Option String
  suspended : Bool
  deriving DecidableEq, Repr

/-- Where a turn's function is. -/
inductive Phase
  | created
  | launched
  | running
  | returned
  deriving DecidableEq, Repr

/-- Who tears a turn down. -/
inductive Why
  | cancel
  | close
  | grace
  | finished
  | deadline
  deriving DecidableEq, Repr

/-- `turnSession`.  The last two fields are history: since when nobody has been watching, and the closed
spans of time before that nobody was. -/
structure Turn where
  sessionID : String
  deadline : Int
  phase : Phase
  finished : Bool
  result : Option Result
  cancelled : Bool
  /-- `reaping`, with who set it -/
  reaping : Option Why
  viewers : List String
  /-- when the pending timer is due -/
  graceTimer : Option Int
  graceDeadline : Option Int
  vacantSince : Option Int
  vacancies : List (Int × Int)
  deriving DecidableEq, Repr

def newTurnSession (now : Int) (sid : String) : Turn where
  sessionID := sid
  deadline := now + cfg.turnDeadline
  phase := .created
  finished := false
  result := none
  cancelled := false
  reaping := none
  viewers := []
  graceTimer := none
  graceDeadline := none
  vacantSince := some now
  vacancies := []

namespace Turn

variable (t : Turn)

/-- The section of `attach`. -/
def attach (now : Int) (viewerID : String) : Turn :=
  { t with
    viewers := t.viewers ++ [viewerID]
    graceTimer := none
    graceDeadline := none
    vacantSince := none
    vacancies := (t.vacantSince.map fun since => (since, now)).toList ++ t.vacancies }

/-- The section of `detach`, for a viewer that is there. -/
def detach (now : Int) (viewerID : String) : Turn :=
  let t := { t with viewers := t.viewers.erase viewerID }
  if t.viewers = [] then
    let t := { t with vacantSince := some now }
    if t.finished then t
    else { t with
      graceDeadline := some (now + cfg.graceWindow), graceTimer := some (now + cfg.graceWindow) }
  else t

/-- The section of `markFinished`. -/
def markFinished (res : Result) : Turn :=
  { t with finished := true, result := some res, graceTimer := none, graceDeadline := none }

end Turn

/-! ## 2. Steps -/

inductive Started
  | closed
  | join (n : Nat)
  | fresh (n : Nat)
  deriving DecidableEq, Repr

/-- What `ReapIdle` copies of a turn. -/
structure Snapshot where
  finished : Bool
  viewers : Nat
  graceDeadline : Option Int
  deadline : Int
  deriving DecidableEq, Repr

def Turn.snapshot (t : Turn) : Snapshot := ⟨t.finished, t.viewers.length, t.graceDeadline, t.deadline⟩

inductive Op
  | tick
  | now
  | start (sid : String)
  | lookup (sid : String)
  | live
  | close
  | rootCancel
  | removeSession (n : Nat)
  | attach (n : Nat) (viewerID : String)
  | detach (n : Nat) (viewerID : String)
  | isFinished (n : Nat)
  | snapshot (n : Nat)
  | markFinished (n : Nat) (res : Result)
  | compareAndSwap (n : Nat) (why : Why)
  | cancel (n : Nat)
  | stopTimer (n : Nat)
  | launch (n : Nat)
  | begins (n : Nat)
  | returns (n : Nat)
  | fire (n : Nat)

def Op.Res : Op → Type
  | .tick | .now => Int
  | .start _ => Started
  | .lookup _ => Option Nat
  | .live => List Nat
  | .close => Option (List Nat)
  | .rootCancel | .removeSession _ | .cancel _ | .stopTimer _ | .launch _ | .begins _ | .fire _ => Unit
  | .attach _ _ | .isFinished _ | .compareAndSwap _ _ => Bool
  | .detach _ _ => Option (Bool × Bool)
  | .snapshot _ => Snapshot
  | .markFinished _ _ => Option Nat
  | .returns _ => Result

abbrev TurnProg (α : Type) := Prog Op Op.Res α

abbrev issue (o : Op) : TurnProg o.Res := Prog.perform o

structure World where
  clock : Int
  closed : Bool
  rootCancelled : Bool
  sessions : String → Option Nat
  turns : List Turn

namespace World

variable (w : World)

/-- The turns in the registry. -/
def registered : List Nat :=
  (List.range w.turns.length).filter fun n =>
    (w.turns[n]?).map (fun t => w.sessions t.sessionID) = some (some n)

/-- The turn of a session that a `Start` joins. -/
def joinable (sid : String) : Option Nat :=
  (w.sessions sid).filter fun n => (w.turns[n]?).any fun t => !t.finished

def put (n : Nat) (t : Turn) : World := { w with turns := w.turns.set n t }

def create (sid : String) : World :=
  { w with
    turns := w.turns ++ [newTurnSession cfg w.clock sid]
    sessions := Function.update w.sessions sid (some w.turns.length) }

/-- `removeSession`: only if the entry is this turn. -/
def remove (n : Nat) : World :=
  { w with sessions := fun sid => if w.sessions sid = some n then none else w.sessions sid }

end World

/-- A step on a turn that is there, if it meets a condition. -/
def World.step (w : World) (n : Nat) (p : Turn → Prop) [DecidablePred p] (f : Turn → Turn) :
    Option World :=
  (w.turns[n]?).bind fun t => if p t then some (w.put n (f t)) else none

def sem {ι : Type} : Lib.Semantics ι World Op Op.Res
  | _, w, .tick, (t : Int) => if w.clock ≤ t then some { w with clock := t } else none
  | _, w, .now, (t : Int) => if t = w.clock then some w else none
  | _, w, .start _, .closed => if w.closed then some w else none
  | _, w, .start sid, .join n =>
    if w.closed = false ∧ w.joinable sid = some n then some w else none
  | _, w, .start sid, .fresh n =>
    if w.closed = false ∧ w.joinable sid = none ∧ n = w.turns.length then some (w.create cfg sid)
    else none
  | _, w, .lookup sid, (r : Option Nat) => if r = w.sessions sid then some w else none
  | _, w, .live, (r : List Nat) => if r.Perm w.registered then some w else none
  | _, w, .close, none => if w.closed then some w else none
  | _, w, .close, some r =>
    if w.closed = false ∧ List.Perm r w.registered then
      some { w with closed := true, sessions := fun _ => none }
    else none
  | _, w, .rootCancel, () => some { w with rootCancelled := true }
  | _, w, .removeSession n, () => some (w.remove n)
  | _, w, .attach n viewerID, true =>
    w.step n (fun t => viewerID ∉ t.viewers) fun t => t.attach w.clock viewerID
  | _, w, .attach n viewerID, false => w.step n (fun t => viewerID ∈ t.viewers) id
  | _, w, .detach n viewerID, none => w.step n (fun t => viewerID ∉ t.viewers) id
  | _, w, .detach n viewerID, some r =>
    w.step n (fun t => viewerID ∈ t.viewers ∧
        r = (decide ((t.detach cfg w.clock viewerID).viewers = []), t.finished))
      fun t => t.detach cfg w.clock viewerID
  | _, w, .isFinished n, (r : Bool) => w.step n (fun t => t.finished = r) id
  | _, w, .snapshot n, (r : Snapshot) => w.step n (fun t => t.snapshot = r) id
  | _, w, .markFinished n _, none => w.step n (fun t => t.finished = true) id
  | _, w, .markFinished n res, some viewers =>
    w.step n (fun t => t.finished = false ∧ t.viewers.length = viewers) fun t => t.markFinished res
  | _, w, .compareAndSwap n why, true =>
    w.step n (fun t => t.reaping = none) fun t => { t with reaping := some why }
  | _, w, .compareAndSwap n _, false => w.step n (fun t => t.reaping ≠ none) id
  | _, w, .cancel n, () => w.step n (fun _ => True) fun t => { t with cancelled := true }
  | _, w, .stopTimer n, () => w.step n (fun _ => True) fun t => { t with graceTimer := none }
  | _, w, .launch n, () => w.step n (fun t => t.phase = .created) fun t => { t with phase := .launched }
  | _, w, .begins n, () => w.step n (fun t => t.phase = .launched) fun t => { t with phase := .running }
  | _, w, .returns n, _ => w.step n (fun t => t.phase = .running) fun t => { t with phase := .returned }
  | _, w, .fire n, () =>
    w.step n (fun t => (t.graceTimer.any fun due => due ≤ w.clock) = true)
      fun t => { t with graceTimer := none }

/-! ## 3. Programs -/

/-- `teardown`: the first to set the flag cancels the turn and removes it. -/
def teardown (n : Nat) (why : Why) : TurnProg Unit := do
  let first : Bool ← issue (.compareAndSwap n why)
  if first then do
    issue (.cancel n)
    issue (.removeSession n)
    issue (.stopTimer n)
  else return ()

section Texts

variable (quote : String → String)

def attach (n : Nat) (sid viewerID : String) : TurnProg (Except String Unit) := do
  if viewerID = "" then return .error "nativeturn: viewer ID is required"
  else
    let attached : Bool ← issue (.attach n viewerID)
    if attached then return .ok ()
    else return .error ("nativeturn: viewer " ++ quote viewerID ++ " already attached to session " ++
      quote sid)

/-- `Start`: the turn, and whether it is a new one.  The goroutine of a new turn is launched after its
viewer was attached, or was not. -/
def start (sid viewerID : String) : TurnProg (Except String (Nat × Bool)) := do
  match ← issue (.start sid) with
  | .closed => return .error "nativeturn: registry is closed"
  | .join n =>
    match ← attach quote n sid viewerID with
    | .error e => return .error e
    | .ok () => return .ok (n, false)
  | .fresh n => do
    let _ ← attach quote n sid viewerID
    issue (.launch n)
    return .ok (n, true)

/-- `AttachIfRunning`. -/
def attachIfRunning (sid viewerID : String) : TurnProg (Except String (Option Nat)) := do
  match ← issue (.lookup sid) with
  | none => return .ok none
  | some n =>
    let finished : Bool ← issue (.isFinished n)
    if finished then return .ok none
    else
      match ← attach quote n sid viewerID with
      | .error e => return .error e
      | .ok () => return .ok (some n)

end Texts

/-- `Turn.Detach`. -/
def detach (n : Nat) (viewerID : String) : TurnProg Unit := do
  match ← issue (.detach n viewerID) with
  | none => return ()
  | some (empty, finished) => if empty && finished then teardown n .finished else return ()

/-- `Cancel`, and its twin `Stop`. -/
def cancel (sid : String) : TurnProg Bool := do
  match ← issue (.lookup sid) with
  | none => return false
  | some n => do
    teardown n .cancel
    return true

/-- `run`, in the goroutine of the turn. -/
def run (n : Nat) : TurnProg Unit := do
  issue (.begins n)
  let res : Result ← issue (.returns n)
  match ← issue (.markFinished n res) with
  | none => return ()
  | some viewers => do
    issue (.cancel n)
    if viewers = 0 then teardown n .finished else return ()

/-- What the timer does when it fires. -/
def timer (n : Nat) : TurnProg Unit := do
  issue (.fire n)
  teardown n .grace

/-- Is the turn to be reaped, and as what? -/
def Snapshot.reap (now : Int) (s : Snapshot) : Option Why :=
  if s.finished ∧ s.viewers = 0 then some .finished
  else if s.finished = false ∧ s.viewers = 0 ∧ (s.graceDeadline.any fun d => d < now) = true then
    some .grace
  else if s.deadline + cfg.graceWindow < now then some .deadline
  else none

def reap (n : Nat) : Option Why → TurnProg Unit
  | some why => teardown n why
  | none => return ()

def reapEach (cfg : Config) (now : Int) : List Nat → TurnProg Unit
  | [] => return ()
  | n :: rest => do
    let s : Snapshot ← issue (.snapshot n)
    reap n (s.reap cfg now)
    reapEach cfg now rest

/-- `ReapIdle`. -/
def reapIdle : TurnProg Unit := do
  let live : List Nat ← issue .live
  let now : Int ← issue .now
  reapEach cfg now live

def teardownEach : List Nat → TurnProg Unit
  | [] => return ()
  | n :: rest => do
    teardown n .close
    teardownEach rest

/-- `Close`. -/
def close : TurnProg Unit := do
  match ← issue .close with
  | none => return ()
  | some live => do
    teardownEach live
    issue .rootCancel

/-! ## 4. Threads -/

/-- What a thread does: a call of the registry or of a turn; or, for the runtime, the goroutine of a turn,
a timer that fires, the passing of time. -/
inductive Action
  | start (sid viewerID : String)
  | attachIfRunning (sid viewerID : String)
  | detach (n : Nat) (viewerID : String)
  | cancel (sid : String)
  | cancelTurn (n : Nat)
  | reapIdle
  | close
  | run (n : Nat)
  | timer (n : Nat)
  | tick

def Action.prog (quote : String → String) (cfg : Config) : Action → TurnProg Unit
  | .start sid viewerID => do
    let _ ← NativeTurn.start quote sid viewerID
    return ()
  | .attachIfRunning sid viewerID => do
    let _ ← NativeTurn.attachIfRunning quote sid viewerID
    return ()
  | .detach n viewerID => NativeTurn.detach n viewerID
  | .cancel sid => do
    let _ ← NativeTurn.cancel sid
    return ()
  | .cancelTurn n => teardown n .cancel
  | .reapIdle => NativeTurn.reapIdle cfg
  | .close => NativeTurn.close
  | .run n => NativeTurn.run n
  | .timer n => NativeTurn.timer n
  | .tick => do
    let _ : Int ← issue .tick
    return ()

def thread (quote : String → String) (cfg : Config) : List Action → TurnProg Unit
  | [] => return ()
  | a :: rest => do
    a.prog quote cfg
    thread quote cfg rest

end Contenox.NativeTurn
