/-
# Firing triggers

The dispatcher lists the log from its cursor, fires the triggers that match each event and moves
the cursor on; a host that appends events fires them itself, through the same code.  What keeps a
pair of a trigger and an event from being fired twice is its row: it is claimed before the chain
runs and carries the outcome afterwards.

A claim is taken over when it has not been touched for long.  The statement that records an outcome
asks for nothing: not that the firing is still running, and not that the claim is still the one the
outcome belongs to.
-/
import Contenox.Events.Log

namespace Contenox.Events

open Lib
open Lib.GoStrings

/-! ## 1. Triggers -/

structure Trigger where
  name : String
  /-- `listen_for.type` -/
  listenFor : String
  deriving DecidableEq, Repr

/-- `MatchesType`: a pattern that ends in `.*` stands for everything below it. -/
def matchesType (pattern typeName : String) : Bool :=
  let pattern := trimSpace pattern
  let typeName := trimSpace typeName
  if hasSuffix pattern ".*" then
    let stem := String.ofList (pattern.toList.take (pattern.length - 2))
    stem ≠ "" && hasPrefix typeName (stem ++ ".")
  else pattern = typeName

/-- `Deps`, as far as firing depends on them. -/
structure Deps where
  workspaceID : String
  triggers : List Trigger
  consumer : String
  maxHop : Int
  batch : Int
  deriving DecidableEq, Repr

/-- `DefaultConsumer`. -/
def defaultConsumer : String := "eventtrigger.dispatcher"

/-- `DefaultMaxHop`. -/
def defaultMaxHop : Int := 4

/-- `newFiringCore`, of deps that have a store and a runner: the workspace is required, the rest
has defaults. -/
def newFiringCore (deps : Deps) : Except String Deps :=
  if deps.workspaceID = "" then .error "eventtrigger: WorkspaceID is required"
  else .ok
    { deps with
      consumer := if deps.consumer = "" then defaultConsumer else deps.consumer
      maxHop := if deps.maxHop ≤ 0 then defaultMaxHop else deps.maxHop
      batch := if deps.batch ≤ 0 then 256 else deps.batch }

def Deps.matching (deps : Deps) (eventType : String) : List Trigger :=
  deps.triggers.filter fun t => matchesType t.listenFor eventType

/-! ## 2. Claims -/

/-- `StaleEventFiringClaim`, two hours. -/
def staleEventFiringClaim : Int := 2 * 60 * 60 * 1000000000

def second : Int := 1000000000

section Programs

variable {ι : Type} (tx : Texts)

def firingText (key : FiringKey) : String :=
  tx.quote key.triggerName ++ "/" ++ toString key.nid

def reclaimFiring (key : FiringKey) (requestID : String) (now : Int) :
    EventProg ι (Except String Bool) := do
  match ← issue (.reclaimFiring key requestID now (now - staleEventFiringClaim)) with
  | .failed e _ => return .error ("libevents: reclaim firing " ++ firingText tx key ++ ": " ++ e)
  | .done affected => return .ok affected

/-- `BeginFiring`. -/
def beginFiring (key : FiringKey) (requestID : String) : EventProg ι (Except String Bool) := do
  let now : Int ← issue .now
  match ← issue (.insertFiring key requestID now) with
  | .failed e _ => return .error ("libevents: begin firing " ++ firingText tx key ++ ": " ++ e)
  | .done true => return .ok true
  | .done false => reclaimFiring tx key requestID now

/-- `FinishFiring`. -/
def finishFiring (key : FiringKey) (status : FiringStatus) (errMsg : String) :
    EventProg ι (Except String Unit) := do
  let now : Int ← issue .now
  match ← issue (.finishFiring key status errMsg now) with
  | .failed e _ => return .error ("libevents: finish firing " ++ firingText tx key ++ ": " ++ e)
  | .done () => return .ok ()

/-- `ResetFiring`: back to a claim that is stale already. -/
def resetFiring (key : FiringKey) : EventProg ι (Except String Bool) := do
  let now : Int ← issue .now
  match ← issue (.resetFiring key (now - staleEventFiringClaim - second)
      (now - staleEventFiringClaim)) with
  | .failed e _ => return .error ("libevents: reset firing " ++ firingText tx key ++ ": " ++ e)
  | .done affected => return .ok affected

/-! ## 3. Firing -/

/-- `finish`: that the outcome could not be recorded is reported and otherwise ignored. -/
def finish (key : FiringKey) (status : FiringStatus) (firingErr : Option String) :
    EventProg ι Unit := do
  let _ ← finishFiring tx key status (firingErr.getD "")
  return ()

variable (deps : Deps)

/-- One trigger of `handle`. -/
def fire (ev : Event) (t : Trigger) : EventProg ι Unit := do
  let requestID : String ← issue .newRequestID
  let key : FiringKey := ⟨deps.workspaceID, t.name, ev.nid⟩
  match ← beginFiring tx key requestID with
  | .error _ => return ()
  | .ok false => return ()
  | .ok true =>
    if deps.maxHop < ev.hop then
      finish tx key .refused (some ("eventtrigger: event " ++ toString ev.nid ++ " hop " ++
        toString ev.hop ++ " exceeds limit " ++ toString deps.maxHop ++ "; refusing to fire " ++
        tx.quote t.name))
    else
      match ← issue (.runChain t.name ev) with
      | some err => finish tx key .error (some err)
      | none => finish tx key .ok none

def fireAll (ev : Event) : List Trigger → EventProg ι Unit
  | [] => return ()
  | t :: rest => do
    fire tx deps ev t
    fireAll ev rest

def handle (ev : Event) : EventProg ι Unit := fireAll tx deps ev (deps.matching ev.type)

/-- `HandleEvent`: events of another workspace are skipped. -/
def handleEvent : List Event → EventProg ι Unit
  | [] => return ()
  | ev :: rest => do
    if ev.workspaceID ≠ deps.workspaceID then handleEvent rest
    else do
      handle tx deps ev
      handleEvent rest

/-! ## 4. The dispatcher -/

/-- The page of one listing: the cursor it ends at, and whether it was cut short. -/
def handlePage : List Event → Int → EventProg ι (Int × Bool)
  | [], cursor => return (cursor, false)
  | ev :: rest, cursor => do
    let done : Bool ← issue .ctxDone
    if done then return (cursor, true)
    else do
      handle tx deps ev
      let _ ← issue (.setCursor deps.consumer deps.workspaceID ev.nid)
      handlePage rest ev.nid

/-- `drain`, from the cursor the dispatcher has, with at most `pages` listings; the cursor after
it. -/
def drain : Nat → Int → EventProg ι Int
  | 0, cursor => return cursor
  | pages + 1, cursor => do
    let done : Bool ← issue .ctxDone
    if done then return cursor
    else
      match ← listEventsSince tx deps.workspaceID cursor deps.batch with
      | .error _ => return cursor
      | .ok events =>
        if events = [] then return cursor
        else
          let (cursor', cut) ← handlePage tx deps events cursor
          if cut ∨ (events.length : Int) < deps.batch then return cursor'
          else drain pages cursor'

/-- The loop of `Run`: after each wake-up a drain, until the context is done.  `drains` says how many
listings each of them gets to make. -/
def runLoop : List Nat → Int → EventProg ι Unit
  | [], _ => return ()
  | pages :: rest, cursor => do
    let done : Bool ← issue .ctxDone
    if done then return ()
    else do
      let cursor' ← drain tx deps pages cursor
      runLoop rest cursor'

/-- `Run`: the backlog first. -/
def run (backlog : Nat) (drains : List Nat) : EventProg ι Unit := do
  match ← issue (.getCursor deps.consumer deps.workspaceID) with
  | .error _ => return ()
  | .ok cursor => do
    let cursor' ← drain tx deps backlog cursor
    runLoop tx deps drains cursor'

end Programs

/-! ## 5. Processes -/

/-- What a process of this package does: run a dispatcher, fire the triggers of events it has appended,
append an event, reset a firing; and, for the environment, let a host die. -/
inductive Action (ι : Type)
  | dispatch (deps : Deps) (backlog : Nat) (drains : List Nat)
  | handleEvent (deps : Deps) (events : List Event)
  | append (ctxHop : Int) (event : Option Draft)
  | reset (key : FiringKey)
  | crash (host : ι)

/-- What is done with the core of the deps, if they have one (`NewDispatcher`, `NewHandler`). -/
def withCore {ι : Type} (deps : Deps) (p : Deps → EventProg ι Unit) : EventProg ι Unit :=
  match newFiringCore deps with
  | .error _ => return ()
  | .ok core => p core

def Action.prog {ι : Type} (tx : Texts) : Action ι → EventProg ι Unit
  | .dispatch deps backlog drains => withCore deps fun core => run tx core backlog drains
  | .handleEvent deps events => withCore deps fun core => Events.handleEvent tx core events
  | .append ctxHop event => do
    let _ ← appendEvent tx ctxHop event
    return ()
  | .reset key => do
    let _ ← resetFiring tx key
    return ()
  | .crash host => do
    let _ : Unit ← issue (.crash host)
    return ()

/-- A process that does one thing after the other. -/
def process {ι : Type} (tx : Texts) : List (Action ι) → EventProg ι Unit
  | [] => return ()
  | a :: rest => do
    a.prog tx
    process tx rest

end Contenox.Events
