/-
# The bounds on what agents decide

A mission's envelope says how many of its asks agents may decide, and how many of its
questions they may answer.  No column counts either.  The UPDATE that writes an agent's
verdict counts the rows whose resolution names an agent, and writes only below the bound.

Three things make the bound hold in every interleaving.  The count is exact
(`likeContains_encode`).  The statement counts and writes in one step, and a row's mission and
kind never change, so the mission it counts is the mission of the row it writes.  And no other
program writes a resolution that names an agent: `Op.unmarked` is what all of them issue.
-/
import Contenox.Approvals.Markers
import Contenox.Approvals.Verdicts

namespace Contenox.Approvals

open Lib (Prog Contract Config Reach anyStep)
open Lib.Contract (Outline)
open Lib.GoStrings (trimSpace)
open Lib.SqlLike (Collation like)
open Lib.Prog (issues_pure issues_op issues_perform issues_ite)

variable {α : Type}

variable {ι : Type} {id : String} {res : ApprovalResolution} {st : HITLApprovalState}
  {b : AgentAnswerBound}

/-! ## 1. What is counted -/

/-- The resolution of the row names an agent that decided it. -/
def HITLApproval.agentDecided (row : HITLApproval) : Bool :=
  row.resolution.any fun r => r.decidedBy.isSome

/-- The resolution of the row names an agent that answered it. -/
def HITLApproval.agentAnswered (row : HITLApproval) : Bool :=
  row.resolution.any fun r => r.answeredBy.isSome

/-- The agent-attributed verdicts recorded for a mission. -/
def agentApprovals (t : List HITLApproval) (missionID : String) : Nat :=
  t.countP fun row => row.missionID = some missionID && row.agentDecided

/-- The agent-attributed answers recorded for a mission. -/
def agentAnswers (t : List HITLApproval) (missionID : String) : Nat :=
  t.countP fun row => row.missionID = some missionID && row.isAttentionAsk && row.agentAnswered

/-- The bound of `RespondAsAgentBounded`: the tools a unit is gated on vary, so every row of
the mission counts. -/
def approvalBound (missionID : String) (max : Int) : AgentAnswerBound :=
  ⟨missionID, "", "", agentApprovalResolutionLike, max⟩

/-- The bound of `answerAttention`. -/
def answerBound (missionID : String) (max : Int) : AgentAnswerBound :=
  ⟨missionID, attentionToolsName, attentionToolName, agentResolutionLike, max⟩

/-- What the statement of a bound counts. -/
theorem counts_iff (b : AgentAnswerBound) (row : HITLApproval) :
    b.counts row = true ↔ row.missionID = some b.missionID ∧
      (b.toolsName = "" ∨ row.toolsName = b.toolsName) ∧
      (b.toolName = "" ∨ row.toolName = b.toolName) ∧
      (row.resolution.any fun r => likeContains b.resolutionLike r.encode) = true := by
  simp only [AgentAnswerBound.counts, Bool.and_eq_true, Bool.or_eq_true, decide_eq_true_eq,
    and_assoc]

theorem counts_approvalBound (m : String) (max : Int) (row : HITLApproval) :
    (approvalBound m max).counts row = (row.missionID = some m && row.agentDecided) := by
  have hany : (row.resolution.any fun r => likeContains agentApprovalResolutionLike r.encode) =
      row.agentDecided := by
    simp only [fun r => (likeContains_encode r).1]
    rfl
  rw [Bool.eq_iff_iff, counts_iff]
  simp [approvalBound, hany]

theorem counts_answerBound (m : String) (max : Int) (row : HITLApproval) :
    (answerBound m max).counts row =
      (row.missionID = some m && row.isAttentionAsk && row.agentAnswered) := by
  have hany : (row.resolution.any fun r => likeContains agentResolutionLike r.encode) =
      row.agentAnswered := by
    simp only [fun r => (likeContains_encode r).2]
    rfl
  have htools : (attentionToolsName = "") = False := by decide
  have htool : (attentionToolName = "") = False := by decide
  rw [Bool.eq_iff_iff, counts_iff]
  simp [answerBound, hany, htools, htool, HITLApproval.isAttentionAsk, and_assoc]

/-- The statement's count is the number of agent-attributed verdicts. -/
theorem spent_approvalBound (t : List HITLApproval) (m : String) (max : Int) :
    (approvalBound m max).spent t = agentApprovals t m :=
  List.countP_congr fun row _ => by rw [counts_approvalBound]

theorem spent_answerBound (t : List HITLApproval) (m : String) (max : Int) :
    (answerBound m max).spent t = agentAnswers t m :=
  List.countP_congr fun row _ => by rw [counts_answerBound]

/-- A bounded UPDATE that lands leaves the count within its bound. -/
theorem spent_after_write {t t' : List HITLApproval} (hnd : (t.map HITLApproval.id).Nodup)
    {at_ : Time} (h : resolveHITLApprovalWithinBound t id b st res at_ = some t') :
    (b.spent t' : Int) ≤ b.max := by
  obtain ⟨row, -, hp, rfl⟩ := Lib.Table.updateWhere_eq_some h
  simp only [Bool.and_eq_true, decide_eq_true_eq] at hp
  have hle : b.spent (Lib.Table.update HITLApproval.id t id (HITLApproval.resolve st res at_)) ≤
      b.spent t + 1 := Lib.Table.countP_update_le hnd b.counts
  omega

/-! ## 2. The contract -/

/-- The party speaks for an agent. -/
def Party.byAgent : Party → Bool
  | .respondAsAgentBounded _ _ _ _ _ _ => true
  | .answer _ _ _ _ byAgent _ => byAgent
  | _ => false

/-- The resolution names no agent. -/
def ApprovalResolution.unmarked (r : ApprovalResolution) : Prop :=
  r.decidedBy = none ∧ r.answeredBy = none

/-- What every program but the two for agents issues: rows without a verdict, and verdicts
that name no agent. -/
def Op.unmarked : Op → Prop
  | .createHITLApproval a => a.resolution = none
  | .resolveHITLApproval _ _ _ res _ => res.unmarked
  | .resolveHITLApprovalWithinBound _ _ _ _ _ => False
  | _ => True

/-- The row of `id` is there, and of the mission and kind that were read. -/
def Filed (id : String) (row : HITLApproval) (s : World ι) : Prop :=
  ∃ row', getHITLApproval s.approvals id = some row' ∧ row'.missionID = row.missionID ∧
    row'.isAttentionAsk = row.isAttentionAsk

/-- When a party may issue an operation.  A verdict that names an agent is a bounded one on a
row of the mission it counts, or the unbounded answer of an agent to a question. -/
def BoundGuar (party : Party) (s : World ι) : Op → Prop
  | .resolveHITLApproval inl id st res at_ =>
      (Op.resolveHITLApproval inl id st res at_).unmarked ∨
        res.decidedBy = none ∧ ∃ h text by_, party = .answer h id text by_ true none ∧
          ∃ row, Filed id row s ∧ row.isAttentionAsk = true
  | .resolveHITLApprovalWithinBound id b _ res _ =>
      ∃ row m, Filed id row s ∧ row.missionID = some m ∧
        ((b = approvalBound m b.max ∧ res.answeredBy = none ∧ ∃ h name approved guidance,
          party = .respondAsAgentBounded h id name approved guidance b.max) ∨
        (b = answerBound m b.max ∧ row.isAttentionAsk = true ∧ res.decidedBy = none ∧
          ∃ h text by_ byAgent, party = .answer h id text by_ byAgent (some b.max) ∧
            (byAgent = false → res.answeredBy = none)))
  | o => o.unmarked

theorem boundGuar_of_unmarked {o : Op} (h : o.unmarked) (party : Party) (s : World ι) :
    BoundGuar party s o := by
  cases o with
  | resolveHITLApproval inl id st res at_ => exact .inl h
  | resolveHITLApprovalWithinBound id b st res at_ => exact h.elim
  | _ => exact h

/-- The invariant: ids are unique, and a row closed by a party that does not speak for an agent
names none. -/
structure BoundInv (calls : ι → Party) (s : World ι) : Prop where
  ids : (s.approvals.map HITLApproval.id).Nodup
  closed : ∀ id i, s.winner id = some i → ∃ row, getHITLApproval s.approvals id = some row ∧
    ((calls i).byAgent = false → row.agentDecided = false ∧ row.agentAnswered = false)

variable [DecidableEq ι] {calls : ι → Party} {i : ι} {s s' : World ι} {o : Op} {row : HITLApproval}

def bounded (calls : ι → Party) : Contract ι (World ι) Op Op.Res :=
  ⟨sem, anyStep, BoundInv calls, fun i s o => BoundGuar (calls i) s o⟩

/-- A row keeps its mission and its kind. -/
theorem Change.keeps_filed (h : Change i s o s') (hf : Filed id row s) : Filed id row s' := by
  obtain ⟨row', hg, hm, hk⟩ := hf
  rcases h.row_after hg with ⟨hg', -⟩ | ⟨v, -, -, -, -, hg'⟩
  · exact ⟨_, hg', hm, hk⟩
  · exact ⟨_, hg', hm, hk⟩

theorem persistent_filed (id : String) (row : HITLApproval) :
    (bounded calls).Persistent (Filed id row) :=
  fun _ _ _ _ _ hm hf => (sem_change hm.2.2.2).keeps_filed hf

omit [DecidableEq ι] in
/-- A verdict written without an agent's name, or by a party that speaks for one. -/
theorem BoundGuar.unmarked_of_verdict {party : Party} (h : BoundGuar party s o) {v : Verdict}
    (hv : o.verdict = some v) (hby : party.byAgent = false) : v.resolution.unmarked := by
  cases o with
  | resolveHITLApproval inl id st res at_ =>
    cases hv
    rcases h with h | ⟨-, h', text, by_, rfl, -⟩
    · exact h
    · cases hby
  | resolveHITLApprovalWithinBound id b st res at_ =>
    cases hv
    obtain ⟨row, m, -, -, ⟨-, -, h', name, approved, guidance, hp⟩ |
      ⟨-, -, hdec, h', text, by_, byAgent, hp, hans⟩⟩ := h
    · rw [hp] at hby
      cases hby
    · rw [hp] at hby
      exact ⟨hdec, hans hby⟩
  | _ => cases hv

/-- **Every step keeps the bounds.** -/
theorem bounded_preserved : (bounded calls).Preserved := by
  intro i s o r s' hm
  have hch := sem_change hm.2.2.2
  obtain ⟨hI, hg, -, -⟩ := hm
  cases hch with
  | create a t hc =>
    refine ⟨Lib.Table.nodup_insert hI.ids hc, fun id j hw => ?_⟩
    obtain ⟨row, hrow, hclean⟩ := hI.closed id j hw
    rcases (Change.create (i := i) a t hc).row_after hrow with ⟨hrow', -⟩ | ⟨_, hov, -⟩
    · exact ⟨row, hrow', hclean⟩
    · cases hov
  | resolve _ v row hov hrow hp =>
    refine ⟨?_, fun id j hw => ?_⟩
    · have hids := Lib.Table.map_key_update (t := s.approvals) (k := v.id)
        (f := HITLApproval.resolve v.state v.resolution v.at_) fun r => id_resolve _ _ _ r
      exact hids ▸ hI.ids
    · by_cases hid : id = v.id
      · subst hid
        obtain rfl : i = j := by simpa [World.won] using hw
        refine ⟨_, get_won hrow, fun hby => ?_⟩
        obtain ⟨hdec, hans⟩ := hg.unmarked_of_verdict hov hby
        simp [HITLApproval.agentDecided, HITLApproval.agentAnswered, HITLApproval.resolve,
          hdec, hans]
      · have hw' : s.winner id = some j := by simpa [World.won, hid] using hw
        obtain ⟨row', hrow', hclean⟩ := hI.closed id j hw'
        refine ⟨row', ?_, hclean⟩
        simpa [World.won, Verdict.apply, getHITLApproval_update, hid] using hrow'
  | _ => exact ⟨hI.ids, hI.closed⟩

omit [DecidableEq ι] in
theorem boundInv_init (calls : ι → Party) : BoundInv calls (World.init ι) :=
  ⟨List.nodup_nil, nofun⟩

/-! ## 3. Programs that name no agent

All of them but the two for agents.  The harmless ones have been walked; one lemma for each of the
others, in the order of the source. -/

variable {p : Call α}

section Unmarked

-- which way a test on blank text goes is of no consequence here
attribute [local irreducible] Lib.GoStrings.trimSpace

/-- The program issues unmarked operations only. -/
abbrev Unmarked {α : Type} (p : Call α) : Prop := p.Issues Op.unmarked

/-- A service whose hook names no agent. -/
def HookUnmarked (svc : Service) : Prop :=
  ∀ hook, svc.hook = some hook → ∀ id, Unmarked (hook id)

omit [DecidableEq ι]

theorem unmarked_of (h : Harmless p) : Unmarked p :=
  h.mono fun o ho => by cases o <;> first | exact ho.elim | exact ho.2.2 | trivial

theorem Routine.unmarked (h : Routine p) : Unmarked p :=
  unmarked_of h.harmless

theorem unmarked_marshalApprovalResolution (approved : Bool) :
    (marshalApprovalResolution approved).unmarked := ⟨rfl, rfl⟩

/-- A person's verdict, whatever name and guidance it carries. -/
theorem unmarked_marshalDecided (approved : Bool) (by_ guidance : String) :
    (marshalDecidedApprovalResolution approved by_ guidance false).unmarked := by
  simp [ApprovalResolution.unmarked, marshalDecidedApprovalResolution]

/-- A person's answer, whatever it says. -/
theorem unmarked_marshalAttention (text by_ : String) :
    (marshalAttentionResolution text by_ false).unmarked := by
  simp [ApprovalResolution.unmarked, marshalAttentionResolution]

variable {svc : Service} (hh : HookUnmarked svc) {resume resumeNext : ResumeHook}

include hh

theorem unmarked_deliver (id : String) (ans : Answer)
    (runHook : Bool) : Unmarked (deliver svc id ans runHook) := by
  refine issues_op trivial fun waiter => ?_
  cases waiter with
  | some ch => exact issues_op trivial fun _ => issues_pure _
  | none =>
    dsimp only
    split
    · exact issues_pure _
    rename_i hook hhook
    refine issues_ite ((hh hook hhook id).bind fun r => ?_) (issues_pure _)
    split
    · exact issues_pure _
    · exact issues_pure _
    · exact issues_pure _

theorem unmarked_recordVerdict (id : String) (approved : Bool) (hres : res.unmarked)
    (runHook : Bool) : Unmarked (recordVerdict svc id approved res runHook) := by
  refine issues_op trivial fun now => issues_op hres fun r => ?_
  split
  · exact issues_pure _
  · exact (routine_tellLoser id _ _).unmarked
  · exact unmarked_deliver hh id _ _

theorem unmarked_resolveRecorded (id : String) (approved : Bool) (hres : res.unmarked)
    (runHook : Bool) : Unmarked (resolveRecorded svc id approved res runHook) := by
  refine (issues_ite (routine_requireResumer svc id).unmarked (issues_pure _)).bind fun refused => ?_
  exact issues_ite (issues_pure _) (unmarked_recordVerdict hh id approved hres runHook)

/-- The sweeps leave no mark of an agent. -/
theorem unmarked_closeRows (now : Time) (state : HITLApprovalState) (outcome : HITLApproval → Bool)
    (runHook : Bool) (rows : List HITLApproval) (closed : List String) :
    Unmarked (closeRows svc now state outcome runHook rows closed) := by
  induction rows generalizing closed with
  | nil => exact issues_pure _
  | cons row rows ih =>
    refine issues_op (unmarked_marshalApprovalResolution _) fun r => ?_
    split
    · exact ih closed
    · exact issues_pure _
    · exact (unmarked_deliver hh row.id _ _).bind fun _ => ih _

theorem unmarked_sweepExpired : Unmarked (sweepExpired svc) := by
  refine issues_op trivial fun now => issues_op trivial fun r => ?_
  cases r with
  | error e => exact issues_pure _
  | ok rows => exact unmarked_closeRows hh now _ _ _ rows []

theorem unmarked_abandonMissionAsks (missionID : String) :
    Unmarked (abandonMissionAsks svc missionID) := by
  refine issues_op trivial fun r => ?_
  cases r with
  | error e => exact issues_pure _
  | ok rows => exact issues_op trivial fun now => unmarked_closeRows hh now _ _ _ _ []

theorem unmarked_afterVerdict (id : String)
    (durable approved : Bool) : Unmarked (afterVerdict svc id durable approved) := by
  have hclose : Unmarked (closeRowInline svc id durable approved) :=
    issues_ite ((unmarked_resolveRecorded hh id approved
      (unmarked_marshalApprovalResolution approved) false).bind fun _ => issues_pure _)
      (issues_pure _)
  refine hclose.bind fun closed => issues_ite (issues_op trivial fun _ => issues_pure _) ?_
  exact issues_ite (issues_op trivial fun _ => issues_pure _) (issues_pure _)

theorem unmarked_holdGate (id : String) (durable : Bool)
    (waiter : Option ChanId) (req : ApprovalRequest) (suspendable : Bool) (fuel : Nat) :
    Unmarked (holdGate svc id durable waiter req suspendable fuel) := by
  refine (routine_waitForVerdict id durable waiter _ _ fuel true).unmarked.bind fun waited => ?_
  cases waited with
  | answered approved | onTimeout approved => exact unmarked_afterVerdict hh id durable approved
  | leaving => exact issues_ite (issues_pure _) (issues_pure _)
  | unaskable => exact issues_pure _

theorem unmarked_gateOnApproval (toolCallID : String)
    (req : ApprovalRequest) (detached suspendable : Bool) (fuel : Nat) :
    Unmarked (gateOnApproval svc toolCallID req detached suspendable fuel) := by
  refine (issues_ite (issues_perform trivial) (issues_pure _)).bind fun id => ?_
  refine (issues_ite (issues_pure _) (issues_op trivial fun _ => issues_pure _)).bind
    fun waiter => ?_
  refine (unmarked_of (harmless_recordPendingApproval svc.ceiling id req)).bind fun r => ?_
  cases r with
  | error e =>
    exact (routine_releaseParked svc id waiter).unmarked.bind fun _ =>
      unmarked_holdGate hh id false none req suspendable fuel
  | ok u =>
    refine issues_ite (issues_pure _) ?_
    exact (unmarked_holdGate hh id true waiter req suspendable fuel).bind fun _ =>
      (routine_releaseParked svc id waiter).unmarked.bind fun _ => issues_pure _

omit hh

theorem unmarked_runResumed (ceiling : Int) (id : String) (verdict : Option Bool)
    (mayAsk : Bool) : Unmarked (runResumed ceiling id verdict mayAsk) := by
  refine (issues_ite (issues_perform trivial) (issues_pure _)).bind fun goes => ?_
  refine (issues_ite (issues_perform trivial) (issues_pure _)).bind fun _ => ?_
  exact unmarked_of (harmless_endResumed ceiling mayAsk)

theorem unmarked_resumeIfAlreadyAnswered (hresume : ∀ id, Unmarked (resume id)) (id : String) :
    Unmarked (resumeIfAlreadyAnswered resume id) := by
  refine issues_op trivial fun r => ?_
  cases r with
  | error e => exact issues_pure _
  | ok row => exact issues_ite (issues_pure _) ((hresume id).bind fun _ => issues_pure _)

theorem unmarked_runClaimed (ceiling : Int) (beats : Nat) (id : String) (verdict : Option Bool)
    (mayAsk : Bool) (hresume : ∀ id, Unmarked (resumeNext id)) :
    Unmarked (runClaimed ceiling beats id verdict mayAsk resumeNext) := by
  refine issues_op trivial fun r => ?_
  cases r with
  | error e => exact issues_pure _
  | ok cp =>
    refine issues_op trivial fun decodes => issues_ite (routine_annotateFailure id _).unmarked ?_
    refine (unmarked_of (harmless_heartbeat id beats)).bind fun _ => ?_
    refine (unmarked_runResumed ceiling id verdict mayAsk).bind fun ended => ?_
    cases ended with
    | completed => exact (routine_dropCheckpoint id _).unmarked
    | failed => exact (routine_annotateFailure id _).unmarked
    | suspended newID =>
      refine issues_op trivial fun r => ?_
      split
      · exact issues_pure _
      · exact (unmarked_resumeIfAlreadyAnswered hresume newID).bind fun _ => issues_pure _

theorem unmarked_resumeAnswered (ceiling : Int) (beats : Nat) (id : String) (row : HITLApproval)
    (verdict : Option Bool) (mayAsk : Bool) (hresume : ∀ id, Unmarked (resumeNext id)) :
    Unmarked (resumeAnswered ceiling beats id row verdict mayAsk resumeNext) := by
  refine (routine_missionFinished row).unmarked.bind fun finished =>
    issues_ite (routine_dropCheckpoint id _).unmarked ?_
  refine issues_op trivial fun now => issues_op trivial fun r => ?_
  split
  · exact issues_pure _
  · exact issues_pure _
  · exact unmarked_runClaimed ceiling beats id verdict mayAsk hresume

theorem unmarked_resumeWith (ceiling : Int) (beats : Nat) (mayAsk : Bool)
    (hresume : ∀ id, Unmarked (resumeNext id)) (id : String) :
    Unmarked (resumeWith ceiling beats mayAsk resumeNext id) := by
  refine issues_op trivial fun r => ?_
  cases r with
  | error e => exact issues_pure _
  | ok row =>
    dsimp only
    split
    · exact issues_pure _
    · exact unmarked_resumeAnswered ceiling beats id row _ mayAsk hresume

theorem unmarked_resumeFromCheckpoint (ceiling : Int) (beats again : Nat) (id : String) :
    Unmarked (resumeFromCheckpoint ceiling beats again id) := by
  induction again generalizing id with
  | zero => exact unmarked_resumeWith ceiling beats false (fun _ => issues_pure _) id
  | succ again ih => exact unmarked_resumeWith ceiling beats true ih id

theorem unmarked_resume (h : Host) (id : String) : Unmarked (h.resume id) :=
  unmarked_resumeFromCheckpoint h.ceiling h.beats h.again id

theorem hookUnmarked_service (h : Host) : HookUnmarked h.service := by
  intro hook hhook id
  rw [h.hook_service hhook]
  exact unmarked_resume h id

theorem unmarked_sweepStranded (hresume : ∀ id, Unmarked (resume id)) (limit : Nat) :
    Unmarked (sweepStrandedCheckpoints resume limit) := by
  have heach : ∀ ids : List String, Unmarked (resumeEach resume ids) := by
    intro ids
    induction ids with
    | nil => exact issues_pure _
    | cons id ids ih => exact (hresume id).bind fun _ => ih
  refine issues_op trivial fun cursor => issues_op trivial fun r => ?_
  cases r with
  | error e => exact issues_pure _
  | ok cps =>
    exact issues_op trivial fun now =>
      (routine_strandedAmong now cps []).unmarked.bind fun ids => heach ids

theorem unmarked_suspendRun (hresume : ∀ id, Unmarked (resume id)) (id : String) (a : α) :
    Unmarked (suspendRun resume id a) := by
  refine (unmarked_of (harmless_saveCheckpoint id)).bind fun r => ?_
  cases r with
  | error e => exact issues_pure _
  | ok u => exact (unmarked_resumeIfAlreadyAnswered hresume id).bind fun _ => issues_pure _

theorem unmarked_promptRun (hh : HookUnmarked svc) (hresume : ∀ id, Unmarked (resume id))
    (callID : String) (req : ApprovalRequest) (detached : Bool) (fuel : Nat) :
    Unmarked (promptRun svc resume callID req detached fuel) := by
  refine issues_op trivial fun id => ?_
  refine (unmarked_gateOnApproval hh id req detached true fuel).bind fun r => ?_
  split
  · exact unmarked_suspendRun hresume _ r
  · exact issues_pure _

theorem unmarked_attentionRun (svc : Service)
    (hresume : ∀ id, Unmarked (resume id)) (callID summary missionID : String) (detached : Bool)
    (fuel : Nat) : Unmarked (attentionRun svc resume callID summary missionID detached fuel) := by
  refine issues_op trivial fun id => ?_
  refine (unmarked_of (harmless_requestAttention svc _ fuel)).bind fun r => ?_
  split
  · exact unmarked_suspendRun hresume _ _
  · exact issues_pure _

end Unmarked

/-! ## 4. The programs for agents -/

section

variable {F : World ι → Prop}

theorem outline_unmarked (hp : Unmarked p) (hF : (bounded calls).Persistent F) :
    (bounded calls).Outline i F p fun _ => F :=
  Outline.of_issues hF (fun s _ _ _ ho => boundGuar_of_unmarked ho (calls i) s) hp

/-- ...and after it the thread may forget what it knew. -/
theorem outline_unmarked_last (hp : Unmarked p) (hF : (bounded calls).Persistent F) :
    (bounded calls).Outline i F p fun _ _ => True :=
  Outline.post (fun _ _ _ _ => trivial) (outline_unmarked hp hF)

/-- Reading a row tells its mission and its kind, for good. -/
theorem outline_readRow {f : Except SqlErr HITLApproval → Call α} {Q : α → World ι → Prop}
    (hrow : ∀ row, (bounded calls).Outline i (Filed id row) (f (.ok row)) Q)
    (herr : ∀ e, (bounded calls).Outline i (fun _ => True) (f (.error e)) Q) :
    (bounded calls).Outline i (fun _ => True) (issue (.getHITLApproval id) >>= f) Q := by
  refine .op (fun s _ _ => (trivial : BoundGuar (calls i) s (.getHITLApproval id))) fun r => ?_
  cases r with
  | error e => exact Outline.forget (herr e)
  | ok row =>
    refine ⟨_, (persistent_filed id row).stable i, fun s s' _ hm => ?_, hrow row⟩
    have hsem : read s (getHITLApproval s.approvals id) (.ok row) = some s' := hm.2.2.2
    obtain ⟨rfl, hok, -⟩ := read_eq_some hsem
    exact ⟨row, hok row rfl, rfl, rfl⟩

/-- An operation that needs what the thread knows, after which only unmarked ones follow. -/
theorem outline_lastVerdict {f : o.Res → Call α} (hF : (bounded calls).Persistent F)
    (hg : ∀ s, F s → BoundGuar (calls i) s o) (hf : ∀ r, Unmarked (f r)) :
    (bounded calls).Outline i F (issue o >>= f) fun _ _ => True :=
  Outline.keep (fun s _ hs => hg s hs) (hF.stable i)
    (fun s r s' hm hs => hF i s o r s' hm hs) fun r => outline_unmarked_last (hf r) hF

theorem exists_mission (h : ¬ trimSpace (row.missionID.getD "") = "") :
    ∃ m, row.missionID = some m := by
  cases hm : row.missionID with
  | none =>
    rw [hm] at h
    exact absurd (by decide) h
  | some m => exact ⟨m, rfl⟩

/-- An agent approves within its bound. -/
theorem outline_respondAsAgentBounded {h : Host} {agentName guidance : String} {approved : Bool}
    {max : Int} (hcall : calls i = .respondAsAgentBounded h id agentName approved guidance max) :
    (bounded calls).Outline i (fun _ => True)
      (respondAsAgentBounded h.service id agentName approved guidance max) fun _ _ => True := by
  refine outline_readRow (fun row => ?_) fun e => ?_
  · have hF : (bounded calls).Persistent (Filed id row) := persistent_filed id row
    dsimp only
    split
    · exact .ret fun _ _ _ => trivial
    split
    · exact .ret fun _ _ _ => trivial
    rename_i hmission
    obtain ⟨m, hm⟩ := exists_mission hmission
    refine .bind (fun refused => ?_)
      (outline_unmarked (routine_requireResumer h.service id).unmarked hF)
    split
    · exact .ret fun _ _ _ => trivial
    refine .bind (fun now => ?_) (outline_unmarked (issues_perform trivial) hF)
    refine outline_lastVerdict hF (fun s hs => ?_) fun r => ?_
    · refine ⟨row, m, hs, hm, .inl ⟨?_, ?_, h, agentName, approved, guidance, hcall⟩⟩
      · rw [hm]
        rfl
      · simp [marshalDecidedApprovalResolution]
    · split
      · exact issues_pure _
      · exact (routine_tellLoser id _ _).unmarked
      · exact unmarked_deliver (hookUnmarked_service h) id _ _
  · cases e with
    | notFound | failed => exact .ret fun _ _ _ => trivial

/-- An agent answers within its bound. -/
theorem outline_answerAttention {h : Host} {text by_ : String} {byAgent : Bool} {bound : Option Int}
    (hcall : calls i = .answer h id text by_ byAgent bound) :
    (bounded calls).Outline i (fun _ => True)
      (answerAttention h.service id text by_ byAgent bound) fun _ _ => True := by
  -- both UPDATEs are followed by the same code
  have hlost := (routine_tellLoser id .store .boundSpent).unmarked
  have hwon := unmarked_deliver (hookUnmarked_service h) id ⟨true, text⟩ true
  unfold answerAttention
  split
  · exact .ret fun _ _ _ => trivial
  refine outline_readRow (fun row => ?_) fun e => ?_
  · have hF : (bounded calls).Persistent (Filed id row) := persistent_filed id row
    dsimp only
    split
    · exact .ret fun _ _ _ => trivial
    rename_i hask
    have hattention : row.isAttentionAsk = true := by simpa using hask
    refine .bind (fun refused => ?_)
      (outline_unmarked (routine_requireResumer h.service id).unmarked hF)
    split
    · exact .ret fun _ _ _ => trivial
    refine .bind (fun now => ?_) (outline_unmarked (issues_perform trivial) hF)
    cases bound with
    | none =>
      refine outline_lastVerdict hF (fun s hs => ?_) fun r => ?_
      · cases byAgent with
        | false => exact .inl (unmarked_marshalAttention text by_)
        | true => exact .inr ⟨rfl, h, text, by_, hcall, row, hs, hattention⟩
      · split
        · exact issues_pure _
        · exact hlost
        · exact hwon
    | some max =>
      dsimp only
      split
      · exact .ret fun _ _ _ => trivial
      rename_i hmission
      obtain ⟨m, hm⟩ := exists_mission hmission
      refine outline_lastVerdict hF (fun s hs => ?_) fun r => ?_
      · refine ⟨row, m, hs, hm, .inr ⟨?_, hattention, rfl, h, text, by_, byAgent, hcall, ?_⟩⟩
        · rw [hm]
          rfl
        · rintro rfl
          exact (unmarked_marshalAttention text by_).2
      · split
        · exact issues_pure _
        · exact hlost
        · exact hwon
  · cases e with
    | notFound | failed => exact .ret fun _ _ _ => trivial

end

/-- Every party keeps the contract. -/
theorem outline_party (calls : ι → Party) (i : ι) :
    (bounded calls).Outline i (fun _ => True) (calls i).prog fun _ _ => True := by
  have hT : (bounded calls).Persistent fun _ => True := Contract.persistent_const True
  have hlast : ∀ {α : Type} {p : Call α} (g : α → Reply), Unmarked p →
      (bounded calls).Outline i (fun _ => True) (p >>= fun r => pure (g r)) fun _ _ => True :=
    fun g hp => outline_unmarked_last (hp.bind fun r => issues_pure (g r)) hT
  cases hcall : calls i with
  | respond h id approved =>
    exact hlast _ (unmarked_resolveRecorded (hookUnmarked_service h) id approved
      (unmarked_marshalApprovalResolution approved) true)
  | respondWithGuidance h id approved decidedBy guidance =>
    exact hlast _ (unmarked_resolveRecorded (hookUnmarked_service h) id approved
      (unmarked_marshalDecided approved _ guidance) true)
  | respondAsAgentBounded h id agentName approved guidance max =>
    exact .bind (fun _ => outline_unmarked_last (issues_pure _) hT)
      (outline_respondAsAgentBounded hcall)
  | answer h id text by_ byAgent bound =>
    exact .bind (fun _ => outline_unmarked_last (issues_pure _) hT) (outline_answerAttention hcall)
  | sweepExpired h => exact hlast _ (unmarked_sweepExpired (hookUnmarked_service h))
  | abandonMissionAsks h missionID =>
    exact hlast _ (unmarked_abandonMissionAsks (hookUnmarked_service h) missionID)
  | requestApproval h toolCallID req fuel =>
    exact hlast _ (unmarked_of (harmless_requestApproval h.service toolCallID req fuel))
  | requestAttention h req fuel =>
    exact hlast _ (unmarked_of (harmless_requestAttention h.service req fuel))
  | gate h toolCallID req detached suspendable fuel =>
    exact hlast _ (unmarked_gateOnApproval (hookUnmarked_service h) toolCallID req detached
      suspendable fuel)
  | run h callID req detached fuel =>
    exact hlast _ (unmarked_promptRun (hookUnmarked_service h) (unmarked_resume h) callID req
      detached fuel)
  | attentionRun h callID summary missionID detached fuel =>
    exact hlast _ (unmarked_attentionRun h.service (unmarked_resume h) callID summary missionID
      detached fuel)
  | sweepStranded h limit =>
    exact hlast (fun _ => .none) (unmarked_sweepStranded (unmarked_resume h) limit)
  | clock ticks => exact hlast (fun _ => .none) (routine_tick ticks).unmarked

/-! ## 5. The bounds hold -/

/-- A bounded UPDATE that wrote its row has left the count within the bound. -/
theorem sem_withinBound {at_ : Time} {r : Except SqlErr Unit}
    (hids : (s.approvals.map HITLApproval.id).Nodup)
    (hs : sem i s (.resolveHITLApprovalWithinBound id b st res at_) r = some s')
    (hnew : getHITLApproval s'.approvals id = some row)
    (hold : getHITLApproval s.approvals id ≠ some row) : (b.spent s'.approvals : Int) ≤ b.max := by
  obtain ⟨-, t, ht, rfl⟩ | ⟨-, rfl, -⟩ := write_map_eq_some hs
  · exact spent_after_write hids ht
  · exact absurd hnew hold

omit [DecidableEq ι] in
theorem Filed.eq_of_get {row₀ : HITLApproval} (h : Filed id row s)
    (hg : getHITLApproval s.approvals id = some row₀) :
    row₀.missionID = row.missionID ∧ row₀.isAttentionAsk = row.isAttentionAsk := by
  obtain ⟨row', hg', hm, hk⟩ := h
  cases (hg.symm.trans hg')
  exact ⟨hm, hk⟩

/-- **The bounds on agents hold.**  In every run, at every step that writes a row: if the row
then names a deciding agent, the step is the bounded verdict of an agent, and the verdicts of
agents on the row's mission are within its bound; if the row names an answering agent, the step
is an agent's answer to a question, and if that has a bound, the answers of agents on the row's
mission are within it.  What a party that does not speak for an agent has closed counts for
neither bound, whatever it says.  And the count is the number of rows that name an agent,
however the database compares characters. -/
theorem agent_bounds_hold (calls : ι → Party) (c : Config ι (World ι) Op Op.Res Reply)
    (hr : Reach sem anyStep (start calls) c) :
    (∀ i o k r s', c.pool i = .op o k → sem i c.store o r = some s' → ∀ id row,
      getHITLApproval s'.approvals id = some row →
      getHITLApproval c.store.approvals id ≠ some row →
        (row.agentDecided = true → ∃ h name approved guidance max m,
          calls i = .respondAsAgentBounded h id name approved guidance max ∧
          row.missionID = some m ∧ (agentApprovals s'.approvals m : Int) ≤ max) ∧
        (row.agentAnswered = true → ∃ h text by_ bound,
          calls i = .answer h id text by_ true bound ∧ row.isAttentionAsk = true ∧
          ∀ max, bound = some max → ∃ m, row.missionID = some m ∧
            (agentAnswers s'.approvals m : Int) ≤ max)) ∧
    (∀ id row i, getHITLApproval c.store.approvals id = some row →
      c.store.winner id = some i → (calls i).byAgent = false → ∀ m max,
        (approvalBound m max).counts row = false ∧ (answerBound m max).counts row = false) ∧
    (∀ m max, (approvalBound m max).spent c.store.approvals = agentApprovals c.store.approvals m ∧
      (answerBound m max).spent c.store.approvals = agentAnswers c.store.approvals m) ∧
    ∀ same, Collation same → ∀ res : ApprovalResolution,
      like same none ("%" ++ agentApprovalResolutionLike ++ "%") res.encode =
        likeContains agentApprovalResolutionLike res.encode ∧
      like same none ("%" ++ agentResolutionLike ++ "%") res.encode =
        likeContains agentResolutionLike res.encode := by
  have hst : ∀ i, (bounded calls).Stable i fun _ => True :=
    fun i => (Contract.persistent_const True).stable i
  have h0 : ∀ i : ι, (fun _ : World ι => True) (World.init ι) := fun _ => trivial
  have hI := (Contract.reach_outline bounded_preserved (boundInv_init calls) hst h0
    (outline_party calls) hr).1
  refine ⟨?_, ?_, fun m max => ⟨spent_approvalBound _ m max, spent_answerBound _ m max⟩, ?_⟩
  · intro i o k r s' hp hs id row hnew hold
    have hg : BoundGuar (calls i) c.store o := Contract.reach_guar bounded_preserved
      (boundInv_init calls) hst h0 (outline_party calls) hr hp
    rcases ((sem_change hs).written hnew).resolve_left hold with
      rfl | ⟨v, row₀, hov, hvid, hg₀, rfl⟩
    · -- a new row has no verdict yet
      have hnone : row.resolution = none := hg
      simp [HITLApproval.agentDecided, HITLApproval.agentAnswered, hnone]
    · cases o with
      | resolveHITLApproval inl id' st res at_ =>
        cases hov
        obtain rfl := hvid
        rcases hg with hun | ⟨hdec, h, text, by_, hcall, row₁, hfiled, hask⟩
        · simp [HITLApproval.agentDecided, HITLApproval.agentAnswered, HITLApproval.resolve,
            hun.1, hun.2]
        refine ⟨fun hd => ?_, fun _ => ⟨h, text, by_, none, hcall, ?_, fun max hmax => ?_⟩⟩
        · simp [HITLApproval.agentDecided, HITLApproval.resolve, hdec] at hd
        · exact (hfiled.eq_of_get hg₀).2.trans hask
        · cases hmax
      | resolveHITLApprovalWithinBound id' b st res at_ =>
        cases hov
        obtain rfl := hvid
        have hle := sem_withinBound hI.ids hs hnew hold
        obtain ⟨row₁, m, hfiled, hm, hcase⟩ := hg
        obtain ⟨hmission, hkind⟩ := hfiled.eq_of_get hg₀
        rcases hcase with ⟨hb, hans, h, name, approved, guidance, hcall⟩ |
          ⟨hb, hask, hdec, h, text, by_, byAgent, hcall, hbyAgent⟩
        · refine ⟨fun _ => ⟨h, name, approved, guidance, b.max, m, hcall,
            hmission.trans hm, ?_⟩, fun ha => ?_⟩
          · rw [hb, spent_approvalBound] at hle
            exact hle
          · simp [HITLApproval.agentAnswered, HITLApproval.resolve, hans] at ha
        · refine ⟨fun hd => ?_, fun ha => ?_⟩
          · simp [HITLApproval.agentDecided, HITLApproval.resolve, hdec] at hd
          have hagent : byAgent = true := by
            by_contra hfalse
            rw [Bool.not_eq_true] at hfalse
            simp [HITLApproval.agentAnswered, HITLApproval.resolve, hbyAgent hfalse] at ha
          rw [hagent] at hcall
          refine ⟨h, text, by_, some b.max, hcall, hkind.trans hask, fun max hmax => ?_⟩
          cases hmax
          refine ⟨m, hmission.trans hm, ?_⟩
          rw [hb, spent_answerBound] at hle
          exact hle
      | _ => cases hov
  · intro id row i hrow hw hby m max
    obtain ⟨row', hrow', hclean⟩ := hI.closed id i hw
    cases (hrow.symm.trans hrow')
    obtain ⟨hdec, hans⟩ := hclean hby
    rw [counts_approvalBound, counts_answerBound, hdec, hans]
    simp
  · intro same hcol res
    rw [(like_encode hcol res).1, (like_encode hcol res).2, (likeContains_encode res).1,
      (likeContains_encode res).2]
    exact ⟨rfl, rfl⟩

/-! ### One ask, decided by an agent under a bound of one -/

/-- Process 0 raises an ask of mission `m` and lets go of it; an agent says yes from process
1, which has no resume hook. -/
def agentCalls : Bool → Party
  | false => .gate ⟨0, -1, false, 0, 0⟩ "call-1" (hourAsk "m") true true 0
  | true => .respondAsAgentBounded ⟨1, -1, false, 0, 0⟩ "call-1" "oracle" true "" 1

def agentRow : HITLApproval := buildApprovalRow "call-1" (hourAsk "m") 1 hour

/-- The UPDATE of that verdict. -/
def agentUpdate : Op :=
  .resolveHITLApprovalWithinBound "call-1" (approvalBound "m" 1) .approved
    (marshalDecidedApprovalResolution true "oracle" "" true) 1

/-- It lands, and the mission's count is within the bound. -/
theorem agent_bounds_hold_agentCalls : ∃ c s' row,
    Reach sem anyStep (start agentCalls) c ∧ sem true c.store agentUpdate (.ok ()) = some s' ∧
    getHITLApproval s'.approvals "call-1" = some row ∧ row.agentDecided = true ∧
    (agentApprovals s'.approvals "m" : Int) ≤ 1 := by
  have run := (Reach.start : Reach sem anyStep (start agentCalls) _)
    |>.step false (.getHITLApproval "call-1") (.error .notFound)
    |>.step false .now 1
    |>.step false (.createHITLApproval agentRow) (.ok ())
    |>.step true (.getHITLApproval "call-1") (.ok agentRow)
    |>.step true (.lookupPending 1 "call-1") none
    |>.step true (.getChainCheckpoint "call-1") (.error .notFound)
    |>.step true .now 1
  have hbound := (agent_bounds_hold agentCalls _ run).1 true agentUpdate _ (.ok ()) _ rfl rfl
    "call-1" _ rfl (by decide)
  obtain ⟨h, name, approved, guidance, max, m, hcall, hm, hle⟩ := hbound.1 rfl
  cases hcall
  cases hm
  exact ⟨_, _, _, run, rfl, rfl, rfl, hle⟩

end Contenox.Approvals
