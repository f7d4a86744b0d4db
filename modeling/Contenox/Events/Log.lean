/-
# Appending to the log and listing it

An append makes sure that the day's table is there and then inserts, in one transaction, under the
next number.  A listing reads the registry of tables and then one table after the other, each with
two statements, and puts the batches in order at the end.  `consume` is a consumer that lists again
and again from the last number it has seen.
-/
import Contenox.Events.Store

namespace Contenox.Events

open Lib
open Lib.GoStrings

/-- The layout of a day, and `%q`. -/
structure Texts where
  /-- `EventPeriodKey` -/
  periodKey : Int → String
  quote : String → String

def eventAcceptanceWindow : Int := 10 * 60 * 1000000000

def maxEventListLimit : Nat := 1000

def eventPartitionPrefix : String := "event_log_"

def eventPartitionTableName (period : String) : String := eventPartitionPrefix ++ period

def validEventPartitionTableName (name : String) : Bool :=
  hasPrefix name eventPartitionPrefix &&
    ((name.toList.drop eventPartitionPrefix.length).length = 8 &&
      (name.toList.drop eventPartitionPrefix.length).all fun c => '0' ≤ c && c ≤ '9')

/-- `requireEventWorkspace`: its error, or none. -/
def requireEventWorkspace (workspaceID : String) : Option String :=
  if trimSpace workspaceID = "" then
    some "event_log: missing required field: workspace_id is required"
  else none

section Programs

variable {ι : Type} (tx : Texts)

/-! ## 1. Appending -/

/-- `EnsureEventPartitionExists`. -/
def ensureEventPartitionExists (ts : Int) : EventProg ι (Except String Unit) := do
  let period := tx.periodKey ts
  let table := eventPartitionTableName period
  if !validEventPartitionTableName table then
    return .error ("event_log: invalid parameter: invalid partition table " ++ tx.quote table)
  match ← issue (.createPartition period) with
  | .error e => return .error ("event_log: create partition " ++ table ++ ": " ++ e)
  | .ok () =>
    match ← issue (.indexPartition period) with
    | .error e => return .error ("event_log: index partition " ++ table ++ ": " ++ e)
    | .ok () =>
      match ← issue (.indexPartition period) with
      | .error e => return .error ("event_log: index partition " ++ table ++ ": " ++ e)
      | .ok () =>
        match ← issue (.registerPartition period) with
        | .failed e _ => return .error ("event_log: register partition " ++ table ++ ": " ++ e)
        | .done () => return .ok ()

/-- An event as it is handed to `AppendEvent`: the time may be zero and the data nil. -/
structure Draft where
  workspaceID : String
  type : String
  source : String
  subject : String
  time : Option Int
  data : Option String
  hop : Int
  deriving DecidableEq, Repr

/-- `AppendEvent`, called in a context that carries `ctxHop`. -/
def appendEvent (ctxHop : Int) (event : Option Draft) : EventProg ι (Except String Event) :=
  match event with
  | none => return .error "event_log: invalid parameter: event cannot be nil"
  | some d =>
    let type := trimSpace d.type
    if type = "" then return .error "event_log: event type is required"
    else
      match requireEventWorkspace d.workspaceID with
      | some e => return .error e
      | none => do
        let now : Int ← issue .now
        let time := d.time.getD now
        if time < now - eventAcceptanceWindow then return .error "event_log: event is too old"
        else if now + eventAcceptanceWindow < time then return .error "event_log: event is too new"
        else
          let hop := if d.hop = 0 then ctxHop else d.hop
          if hop < 0 then
            return .error "event_log: invalid parameter: hop must be non-negative"
          else
            match ← ensureEventPartitionExists tx time with
            | .error e => return .error e
            | .ok () =>
              let ev : Event := ⟨0, d.workspaceID, type, d.source, d.subject, time,
                d.data.getD "\x7b\x7d", hop⟩
              match ← issue (.insertEvent (tx.periodKey time) ev) with
              | .failed e _ => return .error e
              | .done nid => return .ok { ev with nid := nid }

/-! ## 2. Listing -/

/-- The loop of `ListEventsSince` over the registered tables. -/
def readTables (workspaceID : String) (afterNID : Int) (limit : Nat) :
    List String → List Event → EventProg ι (Except String (List Event))
  | [], events => return .ok events
  | period :: rest, events =>
    let table := eventPartitionTableName period
    if !validEventPartitionTableName table then
      return .error ("event_log: invalid parameter: registry names invalid table " ++
        tx.quote table)
    else do
      match ← issue (.maxNID period) with
      | .error e => return .error ("event_log: max nid of " ++ table ++ ": " ++ e)
      | .ok m =>
        if m.all (· ≤ afterNID) then readTables workspaceID afterNID limit rest events
        else
          match ← issue (.selectEvents period workspaceID afterNID limit) with
          | .error e => return .error ("event_log: list since " ++ toString afterNID ++ " in " ++
              table ++ ": " ++ e)
          | .ok batch => readTables workspaceID afterNID limit rest (events ++ batch)

/-- The page size a listing works with. -/
def listLimit (limit : Int) : Nat :=
  if limit ≤ 0 ∨ (maxEventListLimit : Int) < limit then maxEventListLimit else limit.toNat

/-- `ListEventsSince`. -/
def listEventsSince (workspaceID : String) (afterNID limit : Int) :
    EventProg ι (Except String (List Event)) :=
  match requireEventWorkspace workspaceID with
  | some e => return .error e
  | none => do
    match ← issue (.listPartitions workspaceID afterNID) with
    | .error e => return .error ("event_partitions: list: " ++ e)
    | .ok periods =>
      match ← readTables tx workspaceID afterNID (listLimit limit) periods [] with
      | .error e => return .error e
      | .ok events => return .ok ((sortByNID events).take (listLimit limit))

/-- The last number of a page, or the one it was asked from. -/
def lastNIDOf (afterNID : Int) (events : List Event) : Int :=
  (events.getLast?.map (·.nid)).getD afterNID

/-- A consumer that makes `rounds` listings, each from the last number it has seen.  It returns what
it has seen, in order, and how many of the listings went through. -/
def consume (workspaceID : String) (limit : Int) :
    Nat → Int → List Event → Nat → EventProg ι (List Event × Nat)
  | 0, _, seen, listed => return (seen, listed)
  | rounds + 1, afterNID, seen, listed => do
    match ← listEventsSince tx workspaceID afterNID limit with
    | .error _ => consume workspaceID limit rounds afterNID seen listed
    | .ok events =>
      consume workspaceID limit rounds (lastNIDOf afterNID events) (seen ++ events) (listed + 1)

/-! ## 3. What they ask for -/

variable {tx} {P : Op ι → Prop}

theorem ensureEventPartitionExists_issues (ts : Int) (hcreate : ∀ p, P (.createPartition p))
    (hindex : ∀ p, P (.indexPartition p)) (hregister : ∀ p, P (.registerPartition p)) :
    (ensureEventPartitionExists tx ts : EventProg ι _).Issues P := by
  refine Prog.issues_ite (Prog.issues_pure _) ?_
  refine Prog.issues_op (hcreate _) fun r => ?_
  cases r with
  | error e => exact Prog.issues_pure _
  | ok a =>
    refine Prog.issues_op (hindex _) fun r => ?_
    cases r with
    | error e => exact Prog.issues_pure _
    | ok a =>
      refine Prog.issues_op (hindex _) fun r => ?_
      cases r with
      | error e => exact Prog.issues_pure _
      | ok a =>
        refine Prog.issues_op (hregister _) fun r => ?_
        cases r <;> exact Prog.issues_pure _

theorem appendEvent_issues (ctxHop : Int) (event : Option Draft) (hnow : P .now)
    (hcreate : ∀ p, P (.createPartition p)) (hindex : ∀ p, P (.indexPartition p))
    (hregister : ∀ p, P (.registerPartition p)) (hinsert : ∀ p ev, P (.insertEvent p ev)) :
    (appendEvent tx ctxHop event : EventProg ι _).Issues P := by
  cases event with
  | none => exact Prog.issues_pure _
  | some d =>
    refine Prog.issues_ite (Prog.issues_pure _) ?_
    split
    · exact Prog.issues_pure _
    refine Prog.issues_op hnow fun now => ?_
    refine Prog.issues_ite (Prog.issues_pure _) (Prog.issues_ite (Prog.issues_pure _)
      (Prog.issues_ite (Prog.issues_pure _) ?_))
    refine (ensureEventPartitionExists_issues _ hcreate hindex hregister).bind fun r => ?_
    cases r with
    | error e => exact Prog.issues_pure _
    | ok a =>
      refine Prog.issues_op (hinsert _ _) fun r => ?_
      cases r <;> exact Prog.issues_pure _

theorem readTables_issues (ws : String) (after : Int) (limit : Nat) (hmax : ∀ p, P (.maxNID p))
    (hselect : ∀ p ws after limit, P (.selectEvents p ws after limit)) (todo : List String)
    (events : List Event) :
    (readTables tx ws after limit todo events : EventProg ι _).Issues P := by
  induction todo generalizing events with
  | nil => exact Prog.issues_pure _
  | cons period rest ih =>
    refine Prog.issues_ite (Prog.issues_pure _) ?_
    refine Prog.issues_op (hmax _) fun r => ?_
    cases r with
    | error e => exact Prog.issues_pure _
    | ok m =>
      refine Prog.issues_ite (ih events) ?_
      refine Prog.issues_op (hselect _ _ _ _) fun r => ?_
      cases r with
      | error e => exact Prog.issues_pure _
      | ok batch => exact ih (events ++ batch)

theorem listEventsSince_issues (ws : String) (after limit : Int)
    (hlist : ∀ ws after, P (.listPartitions ws after)) (hmax : ∀ p, P (.maxNID p))
    (hselect : ∀ p ws after limit, P (.selectEvents p ws after limit)) :
    (listEventsSince tx ws after limit : EventProg ι _).Issues P := by
  unfold listEventsSince
  split
  · exact Prog.issues_pure _
  refine Prog.issues_op (hlist _ _) fun r => ?_
  cases r with
  | error e => exact Prog.issues_pure _
  | ok periods =>
    refine (readTables_issues ws after _ hmax hselect periods []).bind fun r => ?_
    cases r <;> exact Prog.issues_pure _

end Programs

end Contenox.Events
