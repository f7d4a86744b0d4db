/-
# The gate, the resume path, and the parties of the protocol

`localtools/hitl.go` (`gateOnApproval` and what it calls) holds a tool call until its row is
decided; `agentservice/resume.go` and `resume_sweep.go` bring back a run that released the
process instead.  With the service of `Service.lean` these are all the programs that touch
the two tables.  `Party` lists them, with the arguments each can be called with, and
`Party.prog` is the program a party runs.

What the engine does inside a resumed run is seen only from outside: it may run the gated
tool on a yes, and it ends, or raises one more ask and suspends again.  `runResumed` is that
outside view.  Every id the engine gives a call is minted, so it is new.

A waiter's poll loop, a run that suspends again and again, and the heartbeats of a live
resume have no bound in the source.  Each is given by a number here (`fuel`, `again`,
`beats`) that a statement quantifies over, so every finite run is covered.
-/
import Contenox.Approvals.Service

namespace Contenox.Approvals

open Hitl (Action indefinite)
open Lib (Prog)
open Lib.GoStrings (trimSpace)

/-! ## 1. Waiting at the gate -/

/-- How a wait at the gate ends (`verdictOutcome`). -/
inductive Waited
  | answered (approved : Bool)
  | onTimeout (approved : Bool)
  | leaving
  | unaskable
  deriving DecidableEq, Repr

/-- `waitForVerdict`.  The card answers at most once, and a card that failed is not asked
again; the row is polled only when there is one. -/
def waitForVerdict (id : String) (durable : Bool) (waiter : Option ChanId) (noDeadline : Bool)
    (onTimeout : Option Action) : Nat → Bool → Call Waited
  | 0, _ => do nomatch ← issue .block
  | fuel + 1, card => do
    match ← issue (.select card waiter durable noDeadline) with
    | .card approved => return .answered approved
    | .cardError true => return .leaving
    | .cardError false =>
      if durable then waitForVerdict id durable waiter noDeadline onTimeout fuel false
      else return .unaskable
    | .waiter a => return .answered a.approved
    | .poll =>
      match ← approvalVerdict id with
      | none => waitForVerdict id durable waiter noDeadline onTimeout fuel card
      | some approved => return .answered approved
    | .done true => return .leaving
    | .done false => return .onTimeout (onTimeoutOutcome onTimeout)

/-- How the gate lets go of a call. -/
inductive GateOutcome
  | executed (ok : Bool)
  | denied
  | pending (approvalID : String)
  | failed
  deriving DecidableEq, Repr

/-- The outcome, and what the inline close of the row was told, if there was one. -/
structure GateResult where
  id : String
  outcome : GateOutcome
  closed : Option (Except Err Unit)

section Gate

variable (svc : Service)

/-- `closeRowInline`: nothing to close without a durable row. -/
def closeRowInline (id : String) (durable approved : Bool) : Call (Option (Except Err Unit)) := do
  if durable then
    let r ← resolveApprovalInline svc id approved
    return some r
  else return none

/-- The release of a parked waiter. -/
def releaseParked (id : String) (waiter : Option ChanId) : Call Unit :=
  match waiter with
  | none => return ()
  | some ch => issue (.releaseWaiter svc.proc id ch)

/-- `gateOnApproval` after the wait: close the row with the verdict, then deny, or run the
tool.  The answer of the close is not looked at. -/
def afterVerdict (id : String) (durable approved : Bool) : Call GateResult := do
  let closed ← closeRowInline svc id durable approved
  if approved then
    let ok ← issue (.execTool id durable)
    return ⟨id, .executed ok, closed⟩
  else
    -- the deny message quotes the reviewer recorded on the row
    if durable then
      let _ ← issue (.getHITLApproval id)
      return ⟨id, .denied, closed⟩
    else return ⟨id, .denied, closed⟩

/-- `gateOnApproval` once the row is recorded or recording it failed. -/
def holdGate (id : String) (durable : Bool) (waiter : Option ChanId) (req : ApprovalRequest)
    (suspendable : Bool) (fuel : Nat) : Call GateResult := do
  let waited ← waitForVerdict id durable waiter (indefinite (askTimeout svc.ceiling req))
    req.onTimeout fuel true
  match waited with
  | .answered approved => afterVerdict svc id durable approved
  | .onTimeout approved => afterVerdict svc id durable approved
  | .leaving =>
    if durable && suspendable then return ⟨id, .pending id, none⟩
    else return ⟨id, .failed, none⟩
  | .unaskable => return ⟨id, .failed, none⟩

/-- `gateOnApproval`.  A call that detaches parks no waiter at all; otherwise the waiter is
parked before the row is recorded, and released on the way out. -/
def gateOnApproval (toolCallID : String) (req : ApprovalRequest) (detached suspendable : Bool)
    (fuel : Nat) : Call GateResult := do
  let id ← (if toolCallID = "" then issue .mintCallID else pure toolCallID)
  let detach := detached && suspendable
  let waiter ← (if detach || trimSpace id = "" then pure none
    else do
      let ch ← issue (.registerWaiter svc.proc id)
      return some ch)
  match ← recordPendingApproval svc.ceiling id req with
  | .error _ =>
    -- the gate is not lost: hold the call on a card, with no row to watch
    releaseParked svc id waiter
    holdGate svc id false none req suspendable fuel
  | .ok () =>
    if detach then return ⟨id, .pending id, none⟩
    else
      let r ← holdGate svc id true waiter req suspendable fuel
      releaseParked svc id waiter
      return r

end Gate

/-! ## 2. Resuming a suspended run -/

/-- `resumeClaimStaleness`: ten minutes. -/
def resumeClaimStaleness : Nat := 600

/-- `verdictFromApproval`. -/
def HITLApproval.resumeVerdict (row : HITLApproval) : Except ResumeErr Bool :=
  match row.state with
  | .approved => .ok true
  | .denied => .ok false
  | .expired => .ok ((row.resolution.bind ApprovalResolution.approved).getD false)
  | .pending => .error .unanswered

/-- What a resume injects: a yes or no for a permission ask, words for a question. -/
def HITLApproval.injected (row : HITLApproval) : Except ResumeErr (Option Bool) :=
  if row.isAttentionAsk then
    if row.state = .pending then .error .unanswered else .ok none
  else row.resumeVerdict.map some

/-- How a resumed run ends. -/
inductive RunEnd
  | completed
  | failed
  | suspended (id : String)
  deriving DecidableEq, Repr

/-- `SaveCheckpoint`, down to its INSERT. -/
def saveCheckpoint (id : String) : Call (Except SqlErr Unit) := do
  let now ← issue .now
  issue (.createChainCheckpoint id now)

/-- How a resumed run goes on: it ends, or raises one more ask and suspends under it.  Its
asks are detached, so the ask becomes a row and nobody waits. -/
def endResumed (ceiling : Int) (mayAsk : Bool) : Call RunEnd := do
  match ← issue (.runOutcome mayAsk) with
  | .completed => return .completed
  | .completedCancelled => return .completed
  | .failed => return .failed
  | .asks callID req =>
    let newID ← issue (.toolCallIDFor callID)
    match ← recordPendingApproval ceiling newID req with
    | .error _ => return .failed
    | .ok () =>
      match ← saveCheckpoint newID with
      | .error _ => return .failed
      | .ok () => return .suspended newID

/-- The engine's run of a resumed checkpoint: the gated tool first, if the verdict is a yes. -/
def runResumed (ceiling : Int) (id : String) (verdict : Option Bool) (mayAsk : Bool) :
    Call RunEnd := do
  let goes ← (if verdict = some true then issue .choose else pure false)
  let _ ← (if goes then issue (.execTool id true) else pure true)
  endResumed ceiling mayAsk

/-- The heartbeat of a live resume, at most `beats` times. -/
def heartbeat (id : String) : Nat → Call Unit
  | 0 => return ()
  | beats + 1 => do
    let ticks ← issue .choose
    if ticks then
      let now ← issue .now
      let _ ← issue (.touchChainCheckpointClaim id now)
      heartbeat id beats
    else return ()

/-- `resumeIfAlreadyAnswered`: the re-check that follows a save. -/
def resumeIfAlreadyAnswered (resume : ResumeHook) (id : String) :
    Call Unit := do
  match ← issue (.recheckHITLApproval id) with
  | .error _ => return ()
  | .ok row =>
    if row.state = .pending then return ()
    else
      let _ ← resume id
      return ()

/-- The deletion of a consumed checkpoint: one that is already gone is no failure. -/
def dropCheckpoint (id : String) (otherwise : Except ResumeErr Unit) :
    Call (Except ResumeErr Unit) := do
  match ← issue (.deleteChainCheckpoint id) with
  | .error .failed => return .error .failed
  | _ => return otherwise

/-- Keep the checkpoint, annotated, so that it can be tried again. -/
def annotateFailure (id failure : String) : Call (Except ResumeErr Unit) := do
  let now ← issue .now
  let _ ← issue (.setChainCheckpointFailure id failure now)
  return .error .failed

/-- Has the mission behind a row come to an end? -/
def missionFinished (row : HITLApproval) : Call Bool :=
  match row.missionID with
  | none => return false
  | some m => if m = "" then return false else issue (.missionTerminal m)

/-- A claimed checkpoint: load it, decode it, run it, and consume it. -/
def runClaimed (ceiling : Int) (beats : Nat) (id : String) (verdict : Option Bool)
    (mayAsk : Bool) (resumeNext : ResumeHook) :
    Call (Except ResumeErr Unit) := do
  match ← issue (.getChainCheckpoint id) with
  | .error _ => return .error .failed
  | .ok _ =>
    let decodes ← issue .choose
    if !decodes then annotateFailure id "decode"
    else
      heartbeat id beats
      match ← runResumed ceiling id verdict mayAsk with
      | .completed => dropCheckpoint id (.ok ())
      | .failed => annotateFailure id "resume"
      | .suspended newID =>
        match ← issue (.deleteChainCheckpoint id) with
        | .error .failed => return .error .failed
        | _ =>
          resumeIfAlreadyAnswered resumeNext newID
          return .ok ()

/-- `ResumeFromCheckpoint` once the row is known to be answered: discard the checkpoint of a
finished mission, or else claim it and run it. -/
def resumeAnswered (ceiling : Int) (beats : Nat) (id : String) (row : HITLApproval)
    (verdict : Option Bool) (mayAsk : Bool)
    (resumeNext : ResumeHook) : Call (Except ResumeErr Unit) := do
  let finished ← missionFinished row
  if finished then dropCheckpoint id (.error .missionFinished)
  else
    let now ← issue .now
    match ← issue (.claimChainCheckpoint id now ((now : Int) - resumeClaimStaleness)) with
    -- no checkpoint, or another live resumer holds the claim
    | .error .notFound => return .error .noCheckpoint
    | .error .failed => return .error .failed
    | .ok () => runClaimed ceiling beats id verdict mayAsk resumeNext

/-- One `ResumeFromCheckpoint`: read the row, refuse while it is unanswered, go on with the
verdict it carries.  `resumeNext` resumes the run again if it suspends once more. -/
def resumeWith (ceiling : Int) (beats : Nat) (mayAsk : Bool)
    (resumeNext : ResumeHook) (id : String) :
    Call (Except ResumeErr Unit) := do
  match ← issue (.getHITLApproval id) with
  | .error _ => return .error .failed
  | .ok row =>
    match row.injected with
    | .error e => return .error e
    | .ok verdict => resumeAnswered ceiling beats id row verdict mayAsk resumeNext

/-- `ResumeFromCheckpoint`.  `again` is how often the resumed run may suspend once more. -/
def resumeFromCheckpoint (ceiling : Int) (beats : Nat) :
    Nat → ResumeHook
  | 0, id => resumeWith ceiling beats false (fun _ => return .error .failed) id
  | again + 1, id => resumeWith ceiling beats true (resumeFromCheckpoint ceiling beats again) id

/-! ## 3. Sweeping up stranded checkpoints -/

/-- The selection loop of `StrandedCheckpoints`: answered, and never claimed or claimed too
long ago. -/
def strandedAmong (now : Time) : List ChainCheckpoint → List String → Call (List String)
  | [], ids => return ids
  | cp :: cps, ids => do
    if cp.claimedAt.any fun c => (now : Int) - c < resumeClaimStaleness then
      strandedAmong now cps ids
    else
      match ← issue (.getHITLApproval cp.id) with
      | .error _ => strandedAmong now cps ids
      | .ok row =>
        if row.state = .pending then strandedAmong now cps ids
        else strandedAmong now cps (ids ++ [cp.id])

/-- The resume loop of `SweepStrandedCheckpoints`. -/
def resumeEach (resume : ResumeHook) : List String → Call Unit
  | [] => return ()
  | id :: ids => do
    let _ ← resume id
    resumeEach resume ids

/-- `SweepStrandedCheckpoints`. -/
def sweepStrandedCheckpoints (resume : ResumeHook) (limit : Nat) :
    Call Unit := do
  -- the cursor of the list is the time of the call
  let cursor ← issue .now
  match ← issue (.listChainCheckpoints cursor limit) with
  | .error _ => return ()
  | .ok cps =>
    let now ← issue .now
    let ids ← strandedAmong now cps []
    resumeEach resume ids

/-! ## 4. Runs that may suspend -/

/-- What a run does that suspends: it saves its checkpoint and looks at the row once more. -/
def suspendRun (resume : ResumeHook) (askID : String) (reply : α) : Call α := do
  match ← saveCheckpoint askID with
  | .error _ => return reply
  | .ok () =>
    resumeIfAlreadyAnswered resume askID
    return reply

/-- A turn with one gated call, from the call's id, which is the provider's where there is one,
to the re-check after a suspension (`Prompt` around `gateOnApproval`). -/
def promptRun (svc : Service) (resume : ResumeHook) (callID : String)
    (req : ApprovalRequest) (detached : Bool) (fuel : Nat) : Call GateResult := do
  let id ← issue (.toolCallIDFor callID)
  let r ← gateOnApproval svc id req detached true fuel
  match r.outcome with
  | .pending askID => suspendRun resume askID r
  | _ => return r

/-- A turn that asks a question under its call's id. -/
def attentionRun (svc : Service) (resume : ResumeHook) (callID : String)
    (summary missionID : String) (detached : Bool) (fuel : Nat) : Call AttentionReply := do
  let id ← issue (.toolCallIDFor callID)
  let r ← requestAttention svc ⟨summary, missionID, id, detached⟩ fuel
  match r with
  | .pending askID => suspendRun resume askID r
  | _ => return r

/-! ## 5. The parties -/

/-- A process that hosts the service: whether it has a resume hook, and the two numbers that
bound what a resume in it does (`beats`, `again`). -/
structure Host where
  proc : Proc
  ceiling : Int
  hasHook : Bool
  beats : Nat
  again : Nat

/-- `ResumeHook` of a host. -/
def Host.resume (h : Host) : ResumeHook :=
  resumeFromCheckpoint h.ceiling h.beats h.again

/-- The service as this host configures it. -/
def Host.service (h : Host) : Service :=
  ⟨h.proc, h.ceiling, if h.hasHook then some h.resume else none⟩

theorem Host.hook_service (h : Host) {hook : ResumeHook} (hh : h.service.hook = some hook) :
    hook = h.resume := by
  cases hb : h.hasHook <;> simp_all [Host.service]

/-- Everyone who can act on the tables, with the arguments of the call. -/
inductive Party
  | respond (h : Host) (id : String) (approved : Bool)
  | respondWithGuidance (h : Host) (id : String) (approved : Bool) (decidedBy guidance : String)
  | respondAsAgentBounded (h : Host) (id agentName : String) (approved : Bool)
      (guidance : String) (max : Int)
  | answer (h : Host) (id text by_ : String) (byAgent : Bool) (bound : Option Int)
  | sweepExpired (h : Host)
  | abandonMissionAsks (h : Host) (missionID : String)
  | requestApproval (h : Host) (toolCallID : String) (req : ApprovalRequest) (fuel : Nat)
  | requestAttention (h : Host) (req : AttentionRequest) (fuel : Nat)
  | gate (h : Host) (toolCallID : String) (req : ApprovalRequest)
      (detached suspendable : Bool) (fuel : Nat)
  | run (h : Host) (callID : String) (req : ApprovalRequest) (detached : Bool) (fuel : Nat)
  | attentionRun (h : Host) (callID summary missionID : String) (detached : Bool) (fuel : Nat)
  | sweepStranded (h : Host) (limit : Nat)
  | clock (ticks : List Nat)

/-- What a party ends with. -/
inductive Reply
  | verdict (id : String) (r : Except Err Unit)
  | closed (ids : List String) (e : Option Err)
  | approval (r : Except Err Bool)
  | attention (r : AttentionReply)
  | gate (r : GateResult)
  | none

/-- The clock is a party like any other: it moves time on. -/
def tick : List Nat → Call Unit
  | [] => return ()
  | d :: ds => do
    issue (.advance d)
    tick ds

/-- The program of a party. -/
def Party.prog : Party → Call Reply
  | .respond h id approved => do
    let r ← Approvals.respond h.service id approved
    return .verdict id r
  | .respondWithGuidance h id approved decidedBy guidance => do
    let r ← Approvals.respondWithGuidance h.service id approved decidedBy guidance
    return .verdict id r
  | .respondAsAgentBounded h id agentName approved guidance max => do
    let r ← Approvals.respondAsAgentBounded h.service id agentName approved guidance max
    return .verdict id r
  | .answer h id text by_ byAgent bound => do
    let r ← answerAttention h.service id text by_ byAgent bound
    return .verdict id r
  | .sweepExpired h => do
    let r ← Approvals.sweepExpired h.service
    return .closed r.1 r.2
  | .abandonMissionAsks h missionID => do
    let r ← Approvals.abandonMissionAsks h.service missionID
    return .closed r.1 r.2
  | .requestApproval h toolCallID req fuel => do
    let r ← Approvals.requestApproval h.service toolCallID req fuel
    return .approval r
  | .requestAttention h req fuel => do
    let r ← Approvals.requestAttention h.service req fuel
    return .attention r
  | .gate h toolCallID req detached suspendable fuel => do
    let r ← gateOnApproval h.service toolCallID req detached suspendable fuel
    return .gate r
  | .run h callID req detached fuel => do
    let r ← promptRun h.service h.resume callID req detached fuel
    return .gate r
  | .attentionRun h callID summary missionID detached fuel => do
    let r ← Approvals.attentionRun h.service h.resume callID summary missionID detached fuel
    return .attention r
  | .sweepStranded h limit => do
    sweepStrandedCheckpoints h.resume limit
    return .none
  | .clock ticks => do
    tick ticks
    return .none

end Contenox.Approvals
