/-
# The approval service, as programs

The functions of `hitlservice` that touch an approval row, written in the order of their
Go bodies.  Each line that talks to the database, to the waiter registry or to a channel is
one operation of `World.lean`; everything between two operations is pure.

Seven of them can close a row: `respond`, `respondWithGuidance`, `resolveApprovalInline`,
`respondAsAgentBounded`, the attention answers (`answerAttention`), `sweepExpired` and
`abandonMissionAsks`.  They share two pieces of code.  `deliver` is what a winner does next:
wake the waiter of its own process, or else run the resume hook.  `tellLoser` is the re-read
that tells a loser why it lost.

Logging, the `askWatcher` callbacks and the offer to an adjudicator are left out: an
adjudicator is one more caller of `respondAsAgentBounded` or `answerAttention`.  The checks
for a service built without a store are left out too.
-/
import Contenox.Lib.GoStrings
import Contenox.Policy.Wait
import Contenox.Approvals.World

namespace Contenox.Approvals

open Hitl (Action indefinite waitOf)
open Lib (Prog)
open Lib.GoStrings (trimSpace)

/-- A program over the operations of the world. -/
abbrev Call (α : Type) : Type := Prog Op Op.Res α

/-- Issue one operation. -/
abbrev issue (o : Op) : Call o.Res := Lib.Prog.perform o

/-! ## 1. Results -/

/-- What a caller that tried to close a row may be told. -/
inductive Err
  /-- `ErrVerdictNeedsResumer`: a checkpointed run waits and this process cannot resume it -/
  | needsResumer
  /-- `ErrApprovalNotFound` -/
  | notFound
  /-- `ErrApprovalExpired` -/
  | expired
  /-- `ErrApprovalAlreadyResolved` -/
  | alreadyResolved
  /-- `ErrAgentApprovalBoundSpent` / `ErrAgentAnswerBoundSpent` -/
  | boundSpent
  /-- the verdict is recorded, but resuming the suspended run failed -/
  | resumeFailed
  /-- the ask is a question, not a permission request, or the other way round -/
  | wrongKind
  /-- the ask belongs to no mission, so no agent bound applies to it -/
  | noMission
  /-- an attention answer cannot be empty -/
  | emptyAnswer
  /-- a statement failed -/
  | store
  deriving DecidableEq, Repr

/-- Why a resume did not go through. -/
inductive ResumeErr
  | noCheckpoint
  | unanswered
  | missionFinished
  | failed
  deriving DecidableEq, Repr

/-- What resumes the run of an ask. -/
abbrev ResumeHook : Type := String → Call (Except ResumeErr Unit)

/-- One process's service: its identity, its approval ceiling in seconds (negative: no
deadline), and its resume hook, if one was registered. -/
structure Service where
  proc : Proc
  ceiling : Int
  hook : Option ResumeHook

/-! ## 2. Resolutions -/

def marshalApprovalResolution (approved : Bool) : ApprovalResolution :=
  { approved := some approved }

/-- `marshalDecidedApprovalResolution`: a decision with the actor who made it. -/
def marshalDecidedApprovalResolution (approved : Bool) (by_ guidance : String)
    (byAgent : Bool) : ApprovalResolution :=
  { approved := some approved
    decidedBy := if by_ ≠ "" ∧ byAgent = true then some by_ else none
    decidedByHuman := if by_ ≠ "" ∧ byAgent = false then some by_ else none
    guidance := if trimSpace guidance ≠ "" then some (trimSpace guidance) else none }

/-- `marshalAttentionResolution`: an answer in words. -/
def marshalAttentionResolution (text by_ : String) (byAgent : Bool) : ApprovalResolution :=
  { answer := some text
    answeredBy := if by_ ≠ "" ∧ byAgent = true then some by_ else none
    answeredByHuman := if by_ ≠ "" ∧ byAgent = false then some by_ else none }

/-- `onTimeoutOutcome`: only "allow" lets an unanswered ask through. -/
def onTimeoutOutcome (onTimeout : Option Action) : Bool := onTimeout = some .allow

/-- The state a yes or no puts a row in. -/
def verdictState (approved : Bool) : HITLApprovalState := if approved then .approved else .denied

def attentionToolsName : String := "mission"

def attentionToolName : String := "mission_ask_attention"

/-- `IsAttentionAsk`: the row expects words, not yes or no. -/
def HITLApproval.isAttentionAsk (row : HITLApproval) : Bool :=
  row.toolsName = attentionToolsName && row.toolName = attentionToolName

/-- `AnswerOf`: the words recorded on a resolved attention ask, or "". -/
def HITLApproval.answerOf (row : HITLApproval) : String :=
  (row.resolution.bind ApprovalResolution.answer).getD ""

def agentActor (agentName : String) : String :=
  if trimSpace agentName = "" then "agent" else trimSpace agentName

/-! ## 3. Closing a row -/

section

variable (svc : Service)

/-- `requireResumerForVerdict`: a process that cannot resume a checkpointed run must not
spend its one-shot verdict.  `true` is the refusal (`ErrVerdictNeedsResumer`). -/
def requireResumerForVerdict (id : String) : Call Bool := do
  let waiter ← issue (.lookupPending svc.proc id)
  if waiter.isSome || svc.hook.isSome then return false
  else
    match ← issue (.getChainCheckpoint id) with
    | .error _ => return false
    | .ok _ => return true

/-- What the winner of a row does: wake the waiter of its own process, or else run the
resume hook.  A hook that finds no checkpoint is a clean no-op. -/
def deliver (id : String) (ans : Answer) (runHook : Bool) : Call (Except Err Unit) := do
  match ← issue (.lookupPending svc.proc id) with
  | some ch =>
    issue (.wake ch ans)
    return .ok ()
  | none =>
    match svc.hook with
    | none => return .ok ()
    | some hook =>
      if runHook then
        match ← hook id with
        | .ok () => return .ok ()
        | .error .noCheckpoint => return .ok ()
        | .error _ => return .error .resumeFailed
      else
        return .ok ()

/-- Zero rows matched: read the row again to say why. -/
def tellLoser (id : String) (onMissing onPending : Err) : Call (Except Err Unit) := do
  match ← issue (.getHITLApproval id) with
  | .error .notFound => return .error onMissing
  | .error .failed => return .error .store
  | .ok row =>
    if row.state = .pending then return .error onPending
    else if row.state = .expired then return .error .expired
    else return .error .alreadyResolved

/-- `resolveRecorded` from its UPDATE on: the compare-and-set and the delivery. -/
def recordVerdict (id : String) (approved : Bool) (resolution : ApprovalResolution)
    (runHook : Bool) : Call (Except Err Unit) := do
  let now ← issue .now
  match ← issue (.resolveHITLApproval (!runHook) id (verdictState approved) resolution now) with
  | .error .failed => return .error .store
  | .error .notFound => tellLoser id .notFound .alreadyResolved
  | .ok () => deliver svc id ⟨approved, ""⟩ runHook

/-- `resolveRecorded`: the capability check comes before the compare-and-set. -/
def resolveRecorded (id : String) (approved : Bool) (resolution : ApprovalResolution)
    (runHook : Bool) : Call (Except Err Unit) := do
  let refused ← (if runHook then requireResumerForVerdict svc id else pure false)
  if refused then return .error .needsResumer
  else recordVerdict svc id approved resolution runHook

def resolve (id : String) (approved runHook : Bool) : Call (Except Err Unit) :=
  resolveRecorded svc id approved (marshalApprovalResolution approved) runHook

def respond (id : String) (approved : Bool) : Call (Except Err Unit) :=
  resolve svc id approved true

def resolveApprovalInline (id : String) (approved : Bool) : Call (Except Err Unit) :=
  resolve svc id approved false

def respondWithGuidance (id : String) (approved : Bool) (decidedBy guidance : String) :
    Call (Except Err Unit) :=
  resolveRecorded svc id approved
    (marshalDecidedApprovalResolution approved (trimSpace decidedBy) guidance false) true

/-- The text between the `%` of `agentApprovalResolutionLike`. -/
def agentApprovalResolutionLike : String := "\"decidedBy\":"

/-- The text between the `%` of `agentResolutionLike`. -/
def agentResolutionLike : String := "\"answeredBy\":"

/-- `RespondAsAgentBounded`: an agent's yes or no, under the mission's bound. -/
def respondAsAgentBounded (id agentName : String) (approved : Bool) (guidance : String)
    (max : Int) : Call (Except Err Unit) := do
  match ← issue (.getHITLApproval id) with
  | .error .notFound => return .error .notFound
  | .error .failed => return .error .store
  | .ok row =>
    if row.isAttentionAsk then return .error .wrongKind
    else if trimSpace (row.missionID.getD "") = "" then return .error .noMission
    else
      let refused ← requireResumerForVerdict svc id
      if refused then return .error .needsResumer
      else
        let now ← issue .now
        let bound : AgentAnswerBound :=
          ⟨row.missionID.getD "", "", "", agentApprovalResolutionLike, max⟩
        match ← issue (.resolveHITLApprovalWithinBound id bound (verdictState approved)
            (marshalDecidedApprovalResolution approved (agentActor agentName) guidance true)
            now) with
        | .error .failed => return .error .store
        | .error .notFound => tellLoser id .store .boundSpent
        | .ok () => deliver svc id ⟨approved, ""⟩ true

/-- `answerAttention`: words for a question, with or without an agent bound. -/
def answerAttention (id text by_ : String) (byAgent : Bool) (bound : Option Int) :
    Call (Except Err Unit) := do
  if trimSpace text = "" then return .error .emptyAnswer
  else
    match ← issue (.getHITLApproval id) with
    | .error .notFound => return .error .notFound
    | .error .failed => return .error .store
    | .ok row =>
      if !row.isAttentionAsk then return .error .wrongKind
      else
        let refused ← requireResumerForVerdict svc id
        if refused then return .error .needsResumer
        else
          let now ← issue .now
          let resolution := marshalAttentionResolution text by_ byAgent
          match bound with
          | none =>
            match ← issue (.resolveHITLApproval false id .approved resolution now) with
            | .error .failed => return .error .store
            | .error .notFound => tellLoser id .store .boundSpent
            | .ok () => deliver svc id ⟨true, text⟩ true
          | some max =>
            if trimSpace (row.missionID.getD "") = "" then return .error .noMission
            else
              let b : AgentAnswerBound := ⟨row.missionID.getD "", attentionToolsName,
                attentionToolName, agentResolutionLike, max⟩
              match ← issue (.resolveHITLApprovalWithinBound id b .approved resolution
                  now) with
              | .error .failed => return .error .store
              | .error .notFound => tellLoser id .store .boundSpent
              | .ok () => deliver svc id ⟨true, text⟩ true

end

/-! ## 4. Closing many rows -/

section

variable (svc : Service)

/-- The loop of `SweepExpired` and of `AbandonMissionAsks`: each row is closed in `state` with the
outcome it has.  The source counts the rows it closed; the model keeps their ids.  A failed resume
never fails the loop. -/
def closeRows (now : Time) (state : HITLApprovalState) (outcome : HITLApproval → Bool) (runHook : Bool) :
    List HITLApproval → List String → Call (List String × Option Err)
  | [], closed => return (closed, none)
  | row :: rows, closed => do
    match ← issue (.resolveHITLApproval false row.id state
        (marshalApprovalResolution (outcome row)) now) with
    | .error .notFound => closeRows now state outcome runHook rows closed
    | .error .failed => return (closed, some .store)
    | .ok () =>
      let _ ← deliver svc row.id ⟨outcome row, ""⟩ runHook
      closeRows now state outcome runHook rows (closed ++ [row.id])

def sweepBatchLimit : Nat := 200

def sweepExpired : Call (List String × Option Err) := do
  let now ← issue .now
  match ← issue (.listExpiredHITLApprovals now sweepBatchLimit) with
  | .error _ => return ([], some .store)
  | .ok rows => closeRows svc now .expired (fun row => onTimeoutOutcome row.onTimeout) true rows []

/-- `AbandonMissionAsks`: deny what is still pending, wake whoever waits here, never resume. -/
def abandonMissionAsks (missionID : String) : Call (List String × Option Err) := do
  match ← issue (.listHITLApprovalsForMission missionID maxLimit) with
  | .error _ => return ([], some .store)
  | .ok rows =>
    let now ← issue .now
    closeRows svc now .denied (fun _ => false) false (rows.filter (·.state = .pending)) []

end

/-! ## 5. Raising an ask -/

/-- `expiryAt`: the zero time stands for "no deadline". -/
def expiryAt (now : Time) (wait : Int) : Time := if indefinite wait then 0 else now + wait.toNat

/-- The wait of an ask: the rule's own, or else the ceiling. -/
def askTimeout (ceiling : Int) (req : ApprovalRequest) : Int :=
  if req.timeoutS ≠ 0 then waitOf req.timeoutS else ceiling

/-- The on-timeout verdict a row carries: deny when none is stated, and nothing at all on a
row that never expires. -/
def rowOnTimeout (onTimeout : Option Action) (wait : Int) : Option Action :=
  if indefinite wait then none else some (onTimeout.getD .deny)

def buildApprovalRow (id : String) (req : ApprovalRequest) (now : Time) (wait : Int) :
    HITLApproval where
  id := id
  toolsName := req.toolsName
  toolName := req.toolName
  onTimeout := rowOnTimeout req.onTimeout wait
  state := .pending
  resolution := none
  missionID := if req.missionID = "" then none else some req.missionID
  createdAt := now
  expiresAt := expiryAt now wait
  resolvedAt := none

/-- The row `RequestAttention` records. -/
def attentionRow (id : String) (req : AttentionRequest) (now : Time) (wait : Int) :
    HITLApproval where
  id := id
  toolsName := attentionToolsName
  toolName := attentionToolName
  onTimeout := rowOnTimeout none wait
  state := .pending
  resolution := none
  missionID := if req.missionID = "" then none else some req.missionID
  createdAt := now
  expiresAt := expiryAt now wait
  resolvedAt := none

section Asking

variable (svc : Service)

/-- `RecordPendingApproval`: adopt the row of a repeated ask, or create it.  Of the service
it uses the ceiling. -/
def recordPendingApproval (ceiling : Int) (id : String) (req : ApprovalRequest) :
    Call (Except Err Unit) := do
  if trimSpace id = "" then return .error .store
  else
    match ← issue (.getHITLApproval id) with
    | .ok _ => return .ok ()
    | .error .failed => return .error .store
    | .error .notFound =>
      let now ← issue .now
      match ← issue (.createHITLApproval (buildApprovalRow id req now (askTimeout ceiling req))) with
      | .ok () => return .ok ()
      | .error _ =>
        match ← issue (.getHITLApproval id) with
        | .ok _ => return .ok ()
        | .error _ => return .error .store

/-- The verdict a terminal row carries; `none` while it is pending. -/
def HITLApproval.verdict (row : HITLApproval) : Option Bool :=
  match row.state with
  | .pending => none
  | .approved => some true
  | .denied => some false
  | .expired => some (onTimeoutOutcome row.onTimeout)

/-- `ApprovalVerdict`: `none` when the row is unreadable or still pending. -/
def approvalVerdict (id : String) : Call (Option Bool) := do
  match ← issue (.getHITLApproval id) with
  | .error _ => return none
  | .ok row => return row.verdict

/-- The wait of `RequestApproval` and of `RequestAttention`: the answer a waiter is told, the row a
poll finds closed or the end of the context (`true` when it was cancelled) ends it.  The loop may
turn any number of times; `fuel` is how often it does before the run that is looked at ends. -/
def awaitAnswer (id : String) (ch : ChanId) (noDeadline : Bool) (told : Answer → α)
    (found : HITLApproval → α) (ended : Bool → α) : Nat → Call α
  | 0 => do nomatch ← issue .block
  | fuel + 1 => do
    match ← issue (.select false (some ch) true noDeadline) with
    | .waiter a => return told a
    | .poll =>
      match ← issue (.getHITLApproval id) with
      | .error _ => awaitAnswer id ch noDeadline told found ended fuel
      | .ok row =>
        if row.state = .pending then awaitAnswer id ch noDeadline told found ended fuel
        else return found row
    | .done cancelled => return ended cancelled
    | _ => awaitAnswer id ch noDeadline told found ended fuel

def awaitApproval (id : String) (ch : ChanId) (noDeadline : Bool) : Nat → Call (Except Err Bool) :=
  awaitAnswer id ch noDeadline (fun a => .ok a.approved) (fun row => .ok (row.state = .approved))
    fun cancelled => if cancelled then .error .store else .ok false

/-- `RequestApproval` from the registration of its waiter on. -/
def holdApproval (id : String) (req : ApprovalRequest) (fuel : Nat) : Call (Except Err Bool) := do
  let ch ← issue (.registerWaiter svc.proc id)
  -- publishing the event may fail, and then nobody waits
  let published ← issue .choose
  let r ← (if published then
      awaitApproval id ch (req.timeoutS ≠ 0 || indefinite (askTimeout svc.ceiling req)) fuel
    else pure (.error .store))
  issue (.deletePending svc.proc id)
  return r

/-- `RequestApproval`: a caller-supplied call id is the ask's durable identity, and a repeat
adopts the row or returns its verdict. -/
def requestApproval (toolCallID : String) (req : ApprovalRequest) (fuel : Nat) :
    Call (Except Err Bool) := do
  let id ← (if toolCallID = "" then issue .mintCallID else pure toolCallID)
  let found ← (if toolCallID = "" then pure (.error .notFound) else issue (.getHITLApproval id))
  match found with
  | .ok row =>
    if row.state = .pending then holdApproval svc id req fuel
    else return .ok (row.state = .approved)
  | .error _ =>
    let now ← issue .now
    match ← issue (.createHITLApproval (buildApprovalRow id req now (askTimeout svc.ceiling req))) with
    | .ok () => holdApproval svc id req fuel
    | .error _ =>
      if toolCallID = "" then return .error .store
      else
        match ← issue (.getHITLApproval id) with
        | .error _ => return .error .store
        | .ok row =>
          if row.state = .pending then holdApproval svc id req fuel
          else return .ok (row.state = .approved)

/-- How a question ends for the unit that raised it. -/
inductive AttentionReply
  | text (t : String)
  | unanswered
  | pending (askID : String)
  | failed
  deriving DecidableEq, Repr

def awaitAttention (id : String) (ch : ChanId) (resumable noDeadline : Bool) :
    Nat → Call AttentionReply :=
  awaitAnswer id ch noDeadline
    (fun a => if a.approved = false ∨ trimSpace a.text = "" then .unanswered else .text a.text)
    (fun row => if trimSpace row.answerOf ≠ "" then .text row.answerOf else .unanswered)
    fun cancelled => if !cancelled then .unanswered else if resumable then .pending id else .failed

/-- `RequestAttention`. -/
def requestAttention (req : AttentionRequest) (fuel : Nat) : Call AttentionReply := do
  if trimSpace req.summary = "" then return .failed
  else
    let id ← (if req.askID = "" then issue .mintCallID else pure req.askID)
    let now ← issue .now
    match ← issue (.createHITLApproval (attentionRow id req now svc.ceiling)) with
    | .error _ => return .failed
    | .ok () =>
      let ch ← issue (.registerWaiter svc.proc id)
      let r ← (if req.detached then pure (.pending id)
        else awaitAttention id ch (req.askID ≠ "") (indefinite svc.ceiling) fuel)
      issue (.deletePending svc.proc id)
      return r

end Asking

end Contenox.Approvals
