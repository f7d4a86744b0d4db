/-
# The mission service, as programs

`missionservice.go` and `sweep.go`.  A mission is one record under one key of the KV table, written
whole.  Two kinds of writers meet there.  `bind`, `heartbeat`, `finish`, `setPlan` and the sweep read
the record, change their copy and write it back on condition that the stored value is still the
value they read; `create` and `update` write what they are given.

A row is its record: the JSON text of a record is determined by it and read back to it, so the test
`value = $4` of the conditional UPDATE is equality of records.  Reports and events go to other keys
and to the bus and are left out, as are the readers that write nothing.
-/
import Contenox.Lib.GoStrings
import Contenox.Lib.Table
import Contenox.Lib.Threads

namespace Contenox.Missions

open Lib (Prog)
open Lib.GoStrings

/-! ## 1. Records -/

/-- Nanoseconds. -/
abbrev Time := Int

/-- The five statuses, and any other text a caller may put there. -/
inductive Status
  | opened
  | landed
  | derailed
  | abandoned
  | stuck
  | other (text : String)
  deriving DecidableEq, Repr

def Status.text : Status → String
  | .opened => "open"
  | .landed => "landed"
  | .derailed => "derailed"
  | .abandoned => "abandoned"
  | .stuck => "stuck"
  | .other text => text

/-- `IsTerminalStatus`. -/
def isTerminalStatus : Status → Bool
  | .landed | .derailed | .stuck | .abandoned => true
  | .opened | .other _ => false

inductive PlanEntryStatus
  | pending
  | inProgress
  | completed
  | other (text : String)
  deriving DecidableEq, Repr

inductive PlanEntryPriority
  | high
  | medium
  | low
  | other (text : String)
  deriving DecidableEq, Repr

structure PlanEntry where
  id : String
  content : String
  status : PlanEntryStatus
  priority : PlanEntryPriority
  deriving DecidableEq, Repr

structure Plan where
  entries : List PlanEntry
  revision : Int64
  explanation : String
  deriving DecidableEq, Repr

structure PlanRevisionSummary where
  revision : Int64
  explanation : String
  added : Nat
  removed : Nat
  pending : Nat
  inProgress : Nat
  completed : Nat
  at_ : Time
  deriving DecidableEq, Repr

structure Mission where
  id : String
  intent : String
  agentName : String
  hitlPolicyName : String
  sessionID : String
  instanceID : String
  parentSessionID : String
  status : Status
  statusReason : String
  plan : Plan
  planRevisions : List PlanRevisionSummary
  lastHeartbeat : Option Time
  lastError : String
  createdAt : Time
  updatedAt : Time
  deriving DecidableEq, Repr

/-! ## 2. Operations -/

inductive Err
  | invalid (text : String)
  | conflict (text : String)
  /-- `libdb.ErrNotFound` -/
  | notFound
  /-- a statement failed -/
  | store
  deriving DecidableEq, Repr

/-- How a writing statement ends.  One that failed may have been carried out all the same. -/
inductive Wrote
  | done
  | noRow
  | failed (carriedOut : Bool)
  deriving DecidableEq, Repr

/-- What the sweep reads of an ask: whether it is pending, when it was made, and its deadline. -/
structure Ask where
  pending : Bool
  createdAt : Time
  expiresAt : Option Time
  deriving DecidableEq, Repr

/-- The atomic operations. -/
inductive Op
  | now
  | mint
  | block
  | getKVRaw (id : String)
  | setKV (m : Mission)
  | updateKV (m : Mission)
  | updateKVIfUnchanged (expected value : Mission)
  | listKVPrefix (cursor : Option Time) (limit : Nat)
  | listHITLApprovalsForMission (id : String)

/-- What each operation answers. -/
@[reducible] def Op.Res : Op → Type
  | .now => Time
  | .mint => String
  | .block => Empty
  | .getKVRaw _ => Except Err Mission
  | .setKV _ | .updateKV _ | .updateKVIfUnchanged _ _ => Wrote
  | .listKVPrefix _ _ => Except Err (List Mission × Option Time)
  | .listHITLApprovalsForMission _ => Except Err (List Ask)

/-- A program over the operations. -/
abbrev Call (α : Type) : Type := Prog Op Op.Res α

/-- Issue one operation. -/
abbrev issue (o : Op) : Call o.Res := Lib.Prog.perform o

/-! ## 3. Checks -/

variable (quote : String → String)

def validateStatus : Status → Except Err Unit
  | .other text => .error (.invalid ("invalid status " ++ quote text ++
      ": must be one of open|landed|derailed|stuck|abandoned"))
  | _ => .ok ()

def validate (m : Mission) : Except Err Unit :=
  if trimSpace m.intent = "" then .error (.invalid "intent is required")
  else if containsAny m.intent "\r\n" then .error (.invalid "intent must be a single line")
  else if trimSpace m.hitlPolicyName = "" then
    .error (.invalid "hitlPolicyName is required: a mission must name its envelope")
  else validateStatus quote m.status

def maxPlanEntries : Nat := 100

def maxPlanEntryBytes : Nat := 12000

def planContentLooksCorrupted (s : String) : Bool :=
  contains (toLower s) "__next_f" || contains (toLower s) "self.__next_f" ||
    (decide (400 ≤ s.utf8ByteSize) && decide (s.utf8ByteSize < count s "\\" * 3))

def validatePlanEntryStatus : PlanEntryStatus → Except String Unit
  | .other text => .error ("invalid plan entry status " ++ quote text ++
      ": must be one of pending|in_progress|completed")
  | _ => .ok ()

def validatePlanEntryPriority : PlanEntryPriority → Except String Unit
  | .other text => .error ("invalid plan entry priority " ++ quote text ++
      ": must be one of high|medium|low")
  | _ => .ok ()

/-- The check of one entry in `validatePlan`; `i` counts from one. -/
def validatePlanEntry (i : Nat) (e : PlanEntry) : Except Err Unit :=
  let entry := "plan entry " ++ toString i
  if e.content = "" then .error (.invalid (entry ++ " has empty content"))
  else if maxPlanEntryBytes < e.content.utf8ByteSize then
    .error (.invalid (entry ++ " exceeds max length (" ++ toString e.content.utf8ByteSize ++
      " bytes, max " ++ toString maxPlanEntryBytes ++ ")"))
  else if planContentLooksCorrupted e.content then
    .error (.invalid (entry ++
      " looks corrupted (stream or log paste); revise the plan or shorten the step"))
  else do
    (validatePlanEntryStatus quote e.status).mapError fun t => .invalid (entry ++ ": " ++ t)
    (validatePlanEntryPriority quote e.priority).mapError fun t => .invalid (entry ++ ": " ++ t)

def validatePlanEntries (quote : String → String) : Nat → List PlanEntry → Except Err Unit
  | _, [] => .ok ()
  | i, e :: rest => do
    validatePlanEntry quote i e
    validatePlanEntries quote (i + 1) rest

def validatePlan (entries : List PlanEntry) : Except Err Unit :=
  if entries = [] then .error (.invalid "a plan must have at least one entry")
  else if maxPlanEntries < entries.length then
    .error (.invalid ("plan has too many entries (" ++ toString entries.length ++ ", max " ++
      toString maxPlanEntries ++ ")"))
  else validatePlanEntries quote 1 entries

/-- `validateCompletedImmutable`: the last completed entry of an id gives the content to keep. -/
def validateCompletedImmutable (prev next : List PlanEntry) : Except Err Unit :=
  match next.find? fun e => e.id ≠ "" ∧
      ((prev.reverse.find? fun p => p.status = .completed ∧ p.id = e.id).any
        fun p => e.content ≠ p.content) with
  | some e => .error (.invalid ("plan entry " ++ quote e.id ++
      " rewrites the content of already-completed work; append a correction as a new entry instead"))
  | none => .ok ()

/-- `planRevisionDelta`: ids that came and ids that went. -/
def planRevisionDelta (prev next : List PlanEntry) : Nat × Nat :=
  let prevIDs := ((prev.map PlanEntry.id).filter (· ≠ "")).dedup
  let nextIDs := ((next.map PlanEntry.id).filter (· ≠ "")).dedup
  (nextIDs.countP (· ∉ prevIDs), prevIDs.countP (· ∉ nextIDs))

def maxPlanRevisions : Nat := 20

def appendPlanRevision (ring : List PlanRevisionSummary) (s : PlanRevisionSummary) :
    List PlanRevisionSummary :=
  (ring ++ [s]).drop ((ring ++ [s]).length - maxPlanRevisions)

/-! ## 4. Conditional writers -/

def getWithSnapshot (id : String) : Call (Except Err Mission) :=
  if id = "" then return .error (.invalid "id is required")
  else issue (.getKVRaw id)

/-- What a writer makes of the record it read: it ends, or it writes, with a stamp. -/
inductive Judgement
  | stop (r : Except Err Mission)
  | write (f : Time → Mission)

def casAttempts : Nat := 5

/-- The loop that the four conditional writers share: read, judge, write if unchanged, and start
again if the row moved. -/
def casLoop (id : String) (judge : Mission → Judgement) (gaveUp : Err) :
    Nat → Call (Except Err Mission)
  | 0 => return .error gaveUp
  | attempts + 1 => do
    match ← getWithSnapshot id with
    | .error e => return .error e
    | .ok m =>
      match judge m with
      | .stop r => return r
      | .write f =>
        let now ← issue .now
        match ← issue (.updateKVIfUnchanged m (f now)) with
        | .noRow => casLoop id judge gaveUp attempts
        | .failed _ => return .error .store
        | .done => return .ok (f now)

/-- The text with which a writer gives up. -/
def concurrently (id what : String) : Err :=
  .conflict ("mission " ++ quote id ++ " is being written concurrently; " ++ what ++
    " gave up after " ++ toString casAttempts ++ " attempts")

/-- The judgement of `Bind`. -/
def judgeBind (id sessionID instanceID : String) (m : Mission) : Judgement :=
  if sessionID ≠ "" ∧ m.sessionID ≠ "" ∧ m.sessionID ≠ sessionID then
    .stop (.error (.conflict ("mission " ++ quote id ++ " is already bound to session " ++
      quote m.sessionID)))
  else if instanceID ≠ "" ∧ m.instanceID ≠ "" ∧ m.instanceID ≠ instanceID then
    .stop (.error (.conflict ("mission " ++ quote id ++ " is already bound to instance " ++
      quote m.instanceID)))
  else if (sessionID ≠ "" ∧ m.sessionID = "") ∨ (instanceID ≠ "" ∧ m.instanceID = "") then
    .write fun now => { m with
      sessionID := if m.sessionID = "" then sessionID else m.sessionID
      instanceID := if m.instanceID = "" then instanceID else m.instanceID
      updatedAt := now }
  else .stop (.ok m)

/-- `Bind`. -/
def bind (id sessionID instanceID : String) : Call (Except Err Mission) :=
  if sessionID = "" ∧ instanceID = "" then
    return .error (.invalid "bind requires a sessionId or instanceId")
  else casLoop id (judgeBind quote id sessionID instanceID) (concurrently quote id "bind") casAttempts

/-- The judgement of `Heartbeat`. -/
def judgeHeartbeat (lastErr : String) (m : Mission) : Judgement :=
  if isTerminalStatus m.status then .stop (.ok m)
  else .write fun now =>
    { m with lastHeartbeat := some now, lastError := lastErr, updatedAt := now }

/-- `Heartbeat`. -/
def heartbeat (id lastErr : String) : Call (Except Err Mission) :=
  casLoop id (judgeHeartbeat lastErr) (concurrently quote id "heartbeat") casAttempts

/-- The judgement of `Finish`. -/
def judgeFinish (id : String) (status : Status) (reason : String) (m : Mission) : Judgement :=
  if isTerminalStatus m.status then
    if m.status = status then .stop (.ok m)
    else .stop (.error (.conflict ("mission " ++ quote id ++ " already finished as " ++
      quote m.status.text ++ "; cannot re-finish as " ++ quote status.text)))
  else .write fun now =>
    { m with status := status, statusReason := trimSpace reason, updatedAt := now }

/-- `Finish`. -/
def finish (id : String) (status : Status) (reason : String) : Call (Except Err Mission) :=
  if isTerminalStatus status = false then
    return .error (.invalid ("cannot finish mission " ++ quote id ++ " as " ++ quote status.text ++
      ": a terminal status is required (landed|derailed|stuck|abandoned)"))
  else casLoop id (judgeFinish quote id status reason)
    (concurrently quote id ("finishing as " ++ quote status.text)) casAttempts

/-- The entries as `SetPlan` stores them: trimmed, and with an id each. -/
def normalizeEntries : List PlanEntry → Call (List PlanEntry)
  | [] => return []
  | e :: rest => do
    let id ← (if trimSpace e.id = "" then issue .mint else return e.id)
    let rest ← normalizeEntries rest
    return { e with id := id, content := trimSpace e.content } :: rest

/-- The plan and the summary of a revision, built on the record that was read. -/
def revisePlan (entries : List PlanEntry) (explanation : String) (m : Mission) (now : Time) :
    Mission :=
  let plan : Plan := ⟨entries, m.plan.revision + 1, trimSpace explanation⟩
  let delta := planRevisionDelta m.plan.entries entries
  { m with
    plan := plan
    planRevisions := appendPlanRevision m.planRevisions
      { revision := plan.revision
        explanation := plan.explanation
        added := delta.1
        removed := delta.2
        pending := entries.countP (·.status = .pending)
        inProgress := entries.countP (·.status = .inProgress)
        completed := entries.countP (·.status = .completed)
        at_ := now }
    updatedAt := now }

/-- The judgement of `SetPlan`. -/
def judgeSetPlan (entries : List PlanEntry) (explanation : String) (m : Mission) : Judgement :=
  match validateCompletedImmutable quote m.plan.entries entries with
  | .error e => .stop (.error e)
  | .ok () => .write (revisePlan entries explanation m)

/-- `SetPlan`. -/
def setPlan (id : String) (entries : List PlanEntry) (explanation : String) :
    Call (Except Err Mission) := do
  let normalized ← normalizeEntries entries
  match validatePlan quote normalized with
  | .error e => return .error e
  | .ok () =>
    casLoop id (judgeSetPlan quote normalized explanation)
      (concurrently quote id "setting the plan") casAttempts

/-! ## 5. Whole-record writers -/

/-- The answer of `put`. -/
def written : Wrote → Except Err Unit
  | .done => .ok ()
  | .noRow => .error .notFound
  | .failed _ => .error .store

/-- `Create`: the record is written whatever the key holds. -/
def create (m : Mission) : Call (Except Err Unit) := do
  let m := { m with status := .opened }
  match validate quote m with
  | .error e => return .error e
  | .ok () =>
    let id ← (if m.id = "" then issue .mint else return m.id)
    let now ← issue .now
    return written (← issue (.setKV { m with id := id, createdAt := now, updatedAt := now }))

/-- `Update`: the record is written over the one the key holds. -/
def update (m : Mission) : Call (Except Err Unit) := do
  if m.id = "" then return .error (.invalid "id is required for update")
  else
    match validate quote m with
    | .error e => return .error e
    | .ok () =>
      let now ← issue .now
      return written (← issue (.updateKV { m with updatedAt := now }))

/-! ## 6. The sweep -/

section

variable (durationText : Int → String)

/-- `time.Time.Sub`, which saturates. -/
def sub (a b : Time) : Int :=
  max (-9223372036854775808) (min 9223372036854775807 (a - b))

def minute : Int := 60000000000

/-- `StaleHeartbeatAfter`: six hours. -/
def staleHeartbeatAfter : Int := 360 * minute

def lastLiveness (m : Mission) : Time :=
  match m.lastHeartbeat with
  | some t => if m.createdAt < t then t else m.createdAt
  | none => m.createdAt

def isStale (m : Mission) (now : Time) : Bool :=
  decide (m.status = .opened) && decide (staleHeartbeatAfter < sub now (lastLiveness m))

def neverStale : Int := 9223372036854775807

/-- The loop of `parkBound`. -/
def widenBound : Int → List Ask → Int
  | bound, [] => bound
  | bound, a :: rest =>
    if a.pending = false then widenBound bound rest
    else
      match a.expiresAt with
      | none => neverStale
      | some t => widenBound (if bound < sub t a.createdAt then sub t a.createdAt else bound) rest

def parkBound (id : String) : Call (Except Err Int) := do
  match ← issue (.listHITLApprovalsForMission id) with
  | .error e => return .error e
  | .ok asks => return .ok (widenBound staleHeartbeatAfter asks)

/-- `formatSilence`; `durationText` is `Round(time.Minute).String()`. -/
def formatSilence (d : Int) : String := if d < minute then "less than a minute" else durationText d

def abandonedReason (silence : Int) : String :=
  "reclaimed: host process gone, no heartbeat for " ++ formatSilence durationText silence

/-- `reclaim`: the write is conditional like the others, but it is not tried again. -/
def reclaim (id : String) (now : Time) : Call (Except Err Bool) := do
  match ← getWithSnapshot id with
  | .error .notFound => return .ok false
  | .error e => return .error e
  | .ok m =>
    if isStale m now = false then return .ok false
    else
      match ← parkBound id with
      | .error e => return .error e
      | .ok bound =>
        let silence := sub now (lastLiveness m)
        if silence ≤ bound then return .ok false
        else
          let m' := { m with
            status := .abandoned
            statusReason := abandonedReason durationText silence
            updatedAt := now }
          match ← issue (.updateKVIfUnchanged m m') with
          | .noRow => return .ok false
          | .failed _ => return .error .store
          | .done => return .ok true

def missionSweepBatchLimit : Nat := 200

def scanPageSize : Nat := 200

/-- The inner loop of `SweepAbandoned`: how many are reclaimed after a page. -/
def sweepPage (now : Time) : Nat → List Mission → Call (Nat × Option Err)
  | reclaimed, [] => return (reclaimed, none)
  | reclaimed, m :: rest =>
    if isStale m now = false then sweepPage now reclaimed rest
    else do
      match ← reclaim durationText m.id now with
      | .error e => return (reclaimed, some e)
      | .ok ok =>
        let reclaimed := if ok then reclaimed + 1 else reclaimed
        if missionSweepBatchLimit ≤ reclaimed then return (reclaimed, none)
        else sweepPage now reclaimed rest

/-- The walk ends when the next cursor is not before the last one. -/
def walkEnds : Option Time → Option Time → Bool
  | _, none => true
  | none, some _ => false
  | some cursor, some next => decide (¬ next < cursor)

/-- The outer loop of `SweepAbandoned`; `pages` bounds the pages of the run looked at. -/
def sweepPages (now : Time) : Nat → Option Time → Nat → Call (Nat × Option Err)
  | 0, _, _ => do nomatch ← issue .block
  | pages + 1, cursor, reclaimed =>
    if missionSweepBatchLimit ≤ reclaimed then return (reclaimed, none)
    else do
      match ← issue (.listKVPrefix cursor scanPageSize) with
      | .error e => return (reclaimed, some e)
      | .ok (batch, next) =>
        match ← sweepPage durationText now reclaimed batch with
        | (reclaimed, some e) => return (reclaimed, some e)
        | (reclaimed, none) =>
          if batch.length < scanPageSize ∨ walkEnds cursor next then return (reclaimed, none)
          else sweepPages now pages next reclaimed

/-- `SweepAbandoned`. -/
def sweepAbandoned (pages : Nat) : Call (Nat × Option Err) := do
  let now ← issue .now
  sweepPages durationText now pages none 0

end

/-! ## 7. Parties -/

/-- A call of the service. -/
inductive Party
  | create (m : Mission)
  | bind (id sessionID instanceID : String)
  | heartbeat (id lastErr : String)
  | setPlan (id : String) (entries : List PlanEntry) (explanation : String)
  | finish (id : String) (status : Status) (reason : String)
  | update (m : Mission)
  | sweepAbandoned (pages : Nat)
  deriving DecidableEq, Repr

/-- What a call returns. -/
inductive Reply
  | written (r : Except Err Unit)
  | mission (r : Except Err Mission)
  | swept (reclaimed : Nat) (err : Option Err)

/-- The program of a call. -/
def Party.prog (durationText : Int → String) : Party → Call Reply
  | .create m => do return .written (← Missions.create quote m)
  | .bind id sessionID instanceID => do
    return .mission (← Missions.bind quote id sessionID instanceID)
  | .heartbeat id lastErr => do return .mission (← Missions.heartbeat quote id lastErr)
  | .setPlan id entries explanation => do
    return .mission (← Missions.setPlan quote id entries explanation)
  | .finish id status reason => do return .mission (← Missions.finish quote id status reason)
  | .update m => do return .written (← Missions.update quote m)
  | .sweepAbandoned pages => do
    let (reclaimed, err) ← Missions.sweepAbandoned durationText pages
    return .swept reclaimed err

/-! ## 8. What an operation does -/

/-- The table, and the history of plan writes, which no program reads: who wrote which revision of
which mission. -/
structure World (ι : Type) where
  rows : List Mission
  plans : List (ι × String × Int64)

section Semantics

variable {ι : Type}

/-- The row of a mission, written over. -/
def World.overwrite (w : World ι) (m : Mission) : World ι :=
  { w with rows := Lib.Table.update Mission.id w.rows m.id fun r => { m with id := r.id } }

/-- `INSERT ... ON CONFLICT DO UPDATE`. -/
def World.upsert (w : World ι) (m : Mission) : World ι :=
  match Lib.Table.insert Mission.id w.rows m with
  | some rows => { w with rows := rows }
  | none => w.overwrite m

/-- A conditional write that went through. -/
def World.swap (w : World ι) (i : ι) (expected value : Mission) : World ι :=
  let w := w.overwrite value
  if value.plan.revision = expected.plan.revision then w
  else { w with plans := (i, value.id, value.plan.revision) :: w.plans }

/-- A statement that writes: it applies to a row or it does not, and it may fail either way. -/
def World.write (w w' : World ι) (applies : Bool) : Wrote → Option (World ι)
  | .done => if applies then some w' else none
  | .noRow => if applies then none else some w
  | .failed carriedOut => some (if applies && carriedOut then w' else w)

/-- What an operation does, asked by a thread, with an answer. -/
def sem (i : ι) (w : World ι) : (o : Op) → o.Res → Option (World ι)
  | .now, _ => some w
  | .mint, id => if id = "" then none else some w
  | .getKVRaw id, .ok m => if Lib.Table.get Mission.id w.rows id = some m then some w else none
  | .getKVRaw id, .error .notFound =>
    if Lib.Table.get Mission.id w.rows id = none then some w else none
  | .getKVRaw _, .error _ => some w
  | .setKV m, r => w.write (w.upsert m) true r
  | .updateKV m, r =>
    w.write (w.overwrite m) (Lib.Table.get Mission.id w.rows m.id).isSome r
  | .updateKVIfUnchanged expected value, r =>
    w.write (w.swap i expected value)
      (decide (Lib.Table.get Mission.id w.rows value.id = some expected)) r
  | .listKVPrefix _ limit, .ok (batch, _) =>
    if batch.length ≤ limit ∧ ∀ m ∈ batch, m ∈ w.rows then some w else none
  | .listKVPrefix _ _, .error _ => some w
  | .listHITLApprovalsForMission _, _ => some w

end Semantics

end Contenox.Missions
