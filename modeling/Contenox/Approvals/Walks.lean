/-
# What the programs of the approvals do in passing

Most programs of the service decide nothing: they read, wait, write an ask or touch a checkpoint.
What matters of such a program is WHICH operations it issues, so each is walked once, here, and
every contract takes from the walk what it needs.  `Op.Harmless` leaves out what closes a row, wakes
a waiter or runs a gated tool; `Op.Routine` leaves out, besides, what parks a waiter or has to do
with who owns a checkpoint.
-/
import Contenox.Approvals.Runs

namespace Contenox.Approvals

open Lib.Prog (issues_pure issues_op issues_perform issues_ite)

/-- An ask as the programs record it: unanswered, and not let through when nobody answers. -/
def HITLApproval.Unanswered (a : HITLApproval) : Prop :=
  a.state = .pending ∧ a.onTimeout ≠ some .allow ∧ a.resolution = none

/-- Operations that close no row, wake nobody and run no gated tool. -/
def Op.Harmless : Op → Prop
  | .createHITLApproval a => a.Unanswered
  | .resolveHITLApproval _ _ _ _ _ | .resolveHITLApprovalWithinBound _ _ _ _ _ | .wake _ _
  | .execTool _ _ => False
  | _ => True

/-- Of these, the ones that park nothing and leave the checkpoints with their owners. -/
def Op.Routine : Op → Prop
  | .createHITLApproval _ | .resolveHITLApproval _ _ _ _ _
  | .resolveHITLApprovalWithinBound _ _ _ _ _ | .wake _ _ | .execTool _ _ | .registerWaiter _ _
  | .createChainCheckpoint _ _ | .recheckHITLApproval _ | .claimChainCheckpoint _ _ _
  | .touchChainCheckpointClaim _ _ => False
  | _ => True

abbrev Harmless {α : Type} (p : Call α) : Prop := p.Issues Op.Harmless

/-- The program issues routine operations only. -/
def Routine {α : Type} (p : Call α) : Prop := p.Issues Op.Routine

theorem Routine.harmless {α : Type} {p : Call α} (h : Routine p) : Harmless p :=
  Lib.Prog.Issues.mono (fun o ho => by cases o <;> first | exact ho.elim | trivial) h

-- which way a test on blank text goes is of no consequence here
attribute [local irreducible] Lib.GoStrings.trimSpace

/-! ## 1. Routine programs -/

theorem routine_block {α : Type} (p : Empty → Call α) : Routine (issue .block >>= p) :=
  issues_op trivial nofun

variable (svc : Service) (id : String)

theorem routine_requireResumer : Routine (requireResumerForVerdict svc id) := by
  refine issues_op trivial fun waiter => issues_ite (issues_pure _) ?_
  refine issues_op trivial fun r => ?_
  cases r with
  | error _ | ok _ => exact issues_pure _

theorem routine_tellLoser (onMissing onPending : Err) :
    Routine (tellLoser id onMissing onPending) := by
  refine issues_op trivial fun r => ?_
  split
  · exact issues_pure _
  · exact issues_pure _
  · exact issues_ite (issues_pure _) (issues_ite (issues_pure _) (issues_pure _))

theorem routine_approvalVerdict : Routine (approvalVerdict id) := by
  refine issues_op trivial fun r => ?_
  cases r with
  | error _ | ok _ => exact issues_pure _

/-- Waiting reads the row and the channel, and writes nothing. -/
theorem routine_awaitAnswer (ch : ChanId) (noDeadline : Bool) (told : Answer → α)
    (found : HITLApproval → α) (ended : Bool → α) (fuel : Nat) :
    Routine (awaitAnswer id ch noDeadline told found ended fuel) := by
  induction fuel with
  | zero => exact routine_block _
  | succ fuel ih =>
    refine issues_op trivial fun r => ?_
    split
    · exact issues_pure _
    · refine issues_op trivial fun r => ?_
      cases r with
      | error e => exact ih
      | ok row => exact issues_ite ih (issues_pure _)
    · exact issues_pure _
    · exact ih

theorem routine_waitForVerdict (durable : Bool) (waiter : Option ChanId) (noDeadline : Bool)
    (onTimeout : Option Hitl.Action) (fuel : Nat) (card : Bool) :
    Routine (waitForVerdict id durable waiter noDeadline onTimeout fuel card) := by
  induction fuel generalizing card with
  | zero => exact routine_block _
  | succ fuel ih =>
    refine issues_op trivial fun r => ?_
    split
    · exact issues_pure _
    · exact issues_pure _
    · exact issues_ite (ih false) (issues_pure _)
    · exact issues_pure _
    · refine (routine_approvalVerdict id).bind fun v => ?_
      cases v with
      | none => exact ih card
      | some approved => exact issues_pure _
    · exact issues_pure _
    · exact issues_pure _

theorem routine_releaseParked (waiter : Option ChanId) : Routine (releaseParked svc id waiter) := by
  cases waiter with
  | none => exact issues_pure _
  | some ch => exact issues_perform trivial

theorem routine_annotateFailure (failure : String) : Routine (annotateFailure id failure) :=
  issues_op trivial fun _ => issues_op trivial fun _ => issues_pure _

theorem routine_dropCheckpoint (otherwise : Except ResumeErr Unit) :
    Routine (dropCheckpoint id otherwise) := by
  refine issues_op trivial fun r => ?_
  split
  · exact issues_pure _
  · exact issues_pure _

theorem routine_tick (ds : List Nat) : Routine (tick ds) := by
  induction ds with
  | nil => exact issues_pure _
  | cons d ds ih => exact issues_op trivial fun _ => ih

theorem routine_missionFinished (row : HITLApproval) : Routine (missionFinished row) := by
  unfold missionFinished
  split
  · exact issues_pure _
  · exact issues_ite (issues_pure _) (issues_perform trivial)

theorem routine_strandedAmong (now : Time) (cps : List ChainCheckpoint) (ids : List String) :
    Routine (strandedAmong now cps ids) := by
  induction cps generalizing ids with
  | nil => exact issues_pure _
  | cons cp cps ih =>
    refine issues_ite (ih ids) (issues_op trivial fun r => ?_)
    cases r with
    | error e => exact ih ids
    | ok row => exact issues_ite (ih ids) (ih _)

/-! ## 2. Programs that ask, park or save -/

/-- No row is approved by its timeout. -/
theorem rowOnTimeout_ne_allow {onTimeout : Option Hitl.Action} (h : onTimeout ≠ some .allow)
    (wait : Int) : rowOnTimeout onTimeout wait ≠ some .allow := by
  unfold rowOnTimeout
  split
  · simp
  cases onTimeout with
  | none => simp
  | some a => simpa using h

/-- **No row that is ever built lets an unanswered ask through.** -/
theorem buildApprovalRow_ok (req : ApprovalRequest) (now : Time) (wait : Int) :
    (buildApprovalRow id req now wait).Unanswered :=
  ⟨rfl, rowOnTimeout_ne_allow req.onTimeout_ne_allow wait, rfl⟩

theorem attentionRow_ok (req : AttentionRequest) (now : Time) (wait : Int) :
    (attentionRow id req now wait).Unanswered :=
  ⟨rfl, rowOnTimeout_ne_allow (by simp) wait, rfl⟩

theorem harmless_recordPendingApproval (ceiling : Int) (id : String) (req : ApprovalRequest) :
    Harmless (recordPendingApproval ceiling id req) := by
  refine issues_ite (issues_pure _) (issues_op trivial fun r => ?_)
  split
  · exact issues_pure _
  · exact issues_pure _
  refine issues_op trivial fun now => issues_op (buildApprovalRow_ok ..) fun r => ?_
  split
  · exact issues_pure _
  refine issues_op trivial fun r => ?_
  cases r with
  | error _ | ok _ => exact issues_pure _

theorem harmless_holdApproval (req : ApprovalRequest) (fuel : Nat) :
    Harmless (holdApproval svc id req fuel) := by
  refine issues_op trivial fun ch => issues_op trivial fun published => ?_
  refine (issues_ite (routine_awaitAnswer id ch _ _ _ _ fuel).harmless (issues_pure _)).bind fun r => ?_
  exact issues_op trivial fun _ => issues_pure _

/-- Asking closes nothing. -/
theorem harmless_requestApproval (toolCallID : String) (req : ApprovalRequest) (fuel : Nat) :
    Harmless (requestApproval svc toolCallID req fuel) := by
  refine (issues_ite (issues_perform trivial) (issues_pure _)).bind fun id => ?_
  refine (issues_ite (issues_pure _) (issues_perform trivial)).bind fun found => ?_
  have hheld := harmless_holdApproval svc id req fuel
  cases found with
  | ok row => exact issues_ite hheld (issues_pure _)
  | error e =>
    refine issues_op trivial fun now => issues_op (buildApprovalRow_ok ..) fun r => ?_
    cases r with
    | ok u => exact hheld
    | error e =>
      refine issues_ite (issues_pure _) (issues_op trivial fun r => ?_)
      cases r with
      | error e => exact issues_pure _
      | ok row => exact issues_ite hheld (issues_pure _)

theorem harmless_requestAttention (req : AttentionRequest) (fuel : Nat) :
    Harmless (requestAttention svc req fuel) := by
  refine issues_ite (issues_pure _) ?_
  refine (issues_ite (issues_perform trivial) (issues_pure _)).bind fun id => ?_
  refine issues_op trivial fun now => issues_op (attentionRow_ok ..) fun r => ?_
  cases r with
  | error e => exact issues_pure _
  | ok u =>
    refine issues_op trivial fun ch => ?_
    refine (issues_ite (issues_pure _) (routine_awaitAnswer id ch _ _ _ _ fuel).harmless).bind fun r => ?_
    exact issues_op trivial fun _ => issues_pure _

theorem harmless_saveCheckpoint : Harmless (saveCheckpoint id) :=
  issues_op trivial fun _ => issues_perform trivial

theorem harmless_endResumed (ceiling : Int) (mayAsk : Bool) :
    Harmless (endResumed ceiling mayAsk) := by
  refine issues_op trivial fun r => ?_
  cases r with
  | completed | completedCancelled | failed => exact issues_pure _
  | asks callID req =>
    refine issues_op trivial fun newID => ?_
    refine (harmless_recordPendingApproval ceiling newID req).bind fun r => ?_
    cases r with
    | error e => exact issues_pure _
    | ok u =>
      refine (harmless_saveCheckpoint newID).bind fun r => ?_
      cases r with
      | error e | ok u => exact issues_pure _

theorem harmless_heartbeat (beats : Nat) : Harmless (heartbeat id beats) := by
  induction beats with
  | zero => exact issues_pure _
  | succ beats ih =>
    refine issues_op trivial fun ticks => issues_ite ?_ (issues_pure _)
    exact issues_op trivial fun now => issues_op trivial fun _ => ih

end Contenox.Approvals
