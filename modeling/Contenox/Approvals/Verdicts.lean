/-
# One verdict per row, and what the gate makes of it

The results about whole runs.  Any number of parties act on the tables, in any order, from
an empty world.

* `row_closed_once`: a row leaves pending at most once and never changes afterwards; the
  caller whose UPDATE moved it is the only one that is told so; and a waiter that is woken
  gets the answer its own row records.
* `asks_kept`: no recorded ask lets an unanswered call through, and all that changes of one is
  its verdict.
* `gated_tool_needs_approved_row`: in every run whose inline closes are clean
  (`InlineClean`), a gated tool runs on a durable row only if that row is approved.

The first and the last are not the whole of what one might expect, and the runs at the end of
each section say why.  A winner whose resume hook fails is told an error, although its verdict
stands.  And the gate does not look at what its inline close was told: a yes on the local card
runs the tool even where the row has been denied in the meantime.
-/
import Contenox.Approvals.Outlines

namespace Contenox.Approvals

open Lib (Prog Contract Config Reach anyStep)
open Lib.Contract (Outline)

variable {ι : Type} [DecidableEq ι] {ok : StepCond ι}

/-- Nothing is recorded yet, and every party is at the start of its call. -/
def start (calls : ι → Party) : Config ι (World ι) Op Op.Res Reply :=
  ⟨World.init ι, fun i => (calls i).prog⟩

/-! ## 1. What the replies tell -/

/-- The party was told that it closed the row. -/
def Reply.succeeded (id : String) : Reply → Prop
  | .verdict id' r => id' = id ∧ r = .ok ()
  | .closed ids _ => id ∈ ids
  | .gate r => r.id = id ∧ r.closed = some (.ok ())
  | _ => False

/-- The party was told that its verdict is recorded, but that the resume failed. -/
def Reply.resumeFailed (id : String) : Reply → Prop
  | .verdict id' r => id' = id ∧ r = .error .resumeFailed
  | .gate r => r.id = id ∧ r.closed = some (.error .resumeFailed)
  | _ => False

variable {id : String}

theorem mem_winsOf {id' : String} {r : Except Err Unit} :
    id ∈ winsOf id' r ↔ id' = id ∧ (r = .ok () ∨ r = .error .resumeFailed) := by
  match r with
  | .ok () => simp [winsOf, eq_comm]
  | .error e => cases e <;> simp [winsOf, eq_comm]

theorem mem_wins {reply : Reply} :
    id ∈ reply.wins ↔ reply.succeeded id ∨ reply.resumeFailed id := by
  cases reply with
  | verdict id' r => simp [Reply.wins, Reply.succeeded, Reply.resumeFailed, mem_winsOf, and_or_left]
  | gate r =>
    obtain ⟨id', outcome, closed⟩ := r
    cases closed with
    | none => simp [Reply.wins, gateWins, Reply.succeeded, Reply.resumeFailed]
    | some x =>
      simp [Reply.wins, gateWins, Reply.succeeded, Reply.resumeFailed, mem_winsOf, and_or_left]
  | _ => simp [Reply.wins, Reply.succeeded, Reply.resumeFailed]

/-! ## 2. Facts about every run -/

omit [DecidableEq ι] in
theorem won_init (i : ι) : Won i [] (World.init ι) := by
  intro id
  simp [World.init]

/-- The invariant and the replies, in every run whose steps all meet `ok`. -/
theorem reach_verified {strict : Bool} (hok : CleanInline strict ok) (calls : ι → Party)
    {c : Config ι (World ι) Op Op.Res Reply} (hr : Reach sem ok (start calls) c) :
    Inv strict c.store ∧ ∀ i reply, c.pool i = .ret reply → Won i reply.wins c.store := by
  have hT : Lasting strict ok fun _ => True := Contract.persistent_const True
  have hout : ∀ i, (contract ι strict ok).Outline i (Knows i [] fun _ => True)
      (calls i).prog fun reply => Won i reply.wins := fun i =>
    Outline.post (fun reply s _ hs => by simpa using hs.1) (closes_party hok (calls i) [] _ hT)
  have hst : ∀ i, (contract ι strict ok).Stable i (Knows i [] fun _ => True) :=
    fun i => knows_stable hT
  have h0 : ∀ i, Knows i [] (fun _ => True) (World.init ι) := fun i => ⟨won_init i, trivial⟩
  exact ⟨(Contract.reach_outline preserved inv_init hst h0 hout hr).1,
    fun i reply hret => Contract.reach_post preserved inv_init hst h0 hout hr hret⟩

omit [DecidableEq ι] in
theorem cleanInline_off (ok : StepCond ι) : CleanInline false ok :=
  nofun

/-- A closed row is the same in every later world, whatever the steps. -/
theorem reach_keeps_terminal {c c' : Config ι (World ι) Op Op.Res Reply} (hr : Reach sem ok c c')
    {row : HITLApproval} (hg : getHITLApproval c.store.approvals id = some row)
    (ht : row.state ≠ .pending) : getHITLApproval c'.store.approvals id = some row :=
  hr.store_inv
    (fun _ _ _ _ _ h hs => (sem_change hs).keeps_terminal h ht) hg

/-- **One verdict per row.**  In every run: a closed row never changes again; exactly one
party's UPDATE closed it; that party, when it returns, is told that it succeeded or that the
verdict is recorded but the resume failed; no other party is told either; and every waiter
that took an answer out of its channel took the answer of its own row. -/
theorem row_closed_once (calls : ι → Party) (c : Config ι (World ι) Op Op.Res Reply)
    (hr : Reach sem anyStep (start calls) c) :
    (∀ c', Reach sem anyStep c c' → ∀ id row,
      getHITLApproval c.store.approvals id = some row → row.state ≠ .pending →
        getHITLApproval c'.store.approvals id = some row) ∧
    (∀ id row, getHITLApproval c.store.approvals id = some row → row.state ≠ .pending →
      ∃ i, c.store.winner id = some i ∧
        (∀ reply, c.pool i = .ret reply → reply.succeeded id ∨ reply.resumeFailed id) ∧
        ∀ j reply, j ≠ i → c.pool j = .ret reply →
          ¬ reply.succeeded id ∧ ¬ reply.resumeFailed id) ∧
    (∀ id row, getHITLApproval c.store.approvals id = some row → row.state = .pending →
      ∀ i reply, c.pool i = .ret reply → ¬ reply.succeeded id ∧ ¬ reply.resumeFailed id) ∧
    (∀ ch a, (ch, a) ∈ c.store.received → ∃ row,
      getHITLApproval c.store.approvals (c.store.askOf ch) = some row ∧
        row.verdict = some a.approved ∧ row.answerOf = a.text) := by
  obtain ⟨hI, hreply⟩ := reach_verified (cleanInline_off _) calls hr
  have hnot : ∀ id j reply, c.pool j = .ret reply → c.store.winner id ≠ some j →
      ¬ reply.succeeded id ∧ ¬ reply.resumeFailed id := by
    intro id j reply hret hne
    have hmem : id ∉ reply.wins := fun h => hne ((hreply j reply hret id).mpr h)
    rw [mem_wins] at hmem
    exact not_or.mp hmem
  refine ⟨fun c' hr' id row hg ht => reach_keeps_terminal hr' hg ht, ?_, ?_, ?_⟩
  · intro id row hg ht
    obtain ⟨i, hi⟩ := (hI.winner id).mpr ⟨row, hg, ht⟩
    refine ⟨i, hi, fun reply hret => mem_wins.mp ((hreply i reply hret id).mp hi), ?_⟩
    intro j reply hj hret
    refine hnot id j reply hret ?_
    rw [hi]
    exact fun h => hj (Option.some.inj h).symm
  · intro id row hg hp i reply hret
    refine hnot id i reply hret fun hi => ?_
    obtain ⟨row', hg', hp'⟩ := (hI.winner id).mp ⟨i, hi⟩
    cases (hg.symm.trans hg')
    exact hp' hp
  · intro ch a hch
    exact (hI.received ch a hch).2

/-- The ask is as it was or, if it was open, has a verdict over it. -/
def HITLApproval.Kept (row row' : HITLApproval) : Prop :=
  row' = row ∨ row.state = .pending ∧ ∃ st res at_, row' = row.resolve st res at_

/-- **Silence is not a yes, and an ask is not rewritten.**  In every run, no recorded ask lets an
unanswered call through, and one that expired records a no; and from any point on a recorded ask
stays, but for its verdict. -/
theorem asks_kept (calls : ι → Party) (c : Config ι (World ι) Op Op.Res Reply)
    (hr : Reach sem anyStep (start calls) c) :
    (∀ row ∈ c.store.approvals, row.onTimeout ≠ some .allow) ∧
    (∀ id row, getHITLApproval c.store.approvals id = some row → row.state = .expired →
      row.resolution.bind ApprovalResolution.approved = some false) ∧
    ∀ c', Reach sem anyStep c c' → ∀ id row, getHITLApproval c.store.approvals id = some row →
      ∃ row', getHITLApproval c'.store.approvals id = some row' ∧ row.Kept row' := by
  obtain ⟨hI, -⟩ := reach_verified (cleanInline_off _) calls hr
  refine ⟨hI.onTimeout, hI.expired, fun c' hr' id row hg => ?_⟩
  refine hr'.store_inv
    (P := fun s => ∃ row', getHITLApproval s.approvals id = some row' ∧ row.Kept row')
    (fun i s o r s' h hs => ?_) ⟨row, hg, .inl rfl⟩
  obtain ⟨row', hg', hkept⟩ := h
  rcases (sem_change hs).row_after hg' with ⟨hg', -⟩ | ⟨v, -, -, hp, -, hg'⟩
  · exact ⟨row', hg', hkept⟩
  · refine ⟨_, hg', .inr ?_⟩
    rcases hkept with rfl | ⟨hp', st, res, at_, rfl⟩
    · exact ⟨hp, _, _, _, rfl⟩
    · exact ⟨hp', _, _, _, rfl⟩

/-! ### A winner that is told an error

An ask of mission `m` is raised by a run that detaches; the mission ends; then somebody says
yes.  The UPDATE lands, the resume hook finds the mission finished, and the caller gets an
error.  Nobody is told that the row was closed. -/

/-- An hour, in nanoseconds. -/
def hour : Int := 3600 * Hitl.second

/-- An ask that waits an hour. -/
def hourAsk (missionID : String) : ApprovalRequest :=
  ⟨"local_shell", "local_shell", missionID, 3600, none, by simp⟩

/-- Process 0 raises the ask and lets go of it; process 1, which has a resume hook, answers. -/
def missionCalls : Bool → Party
  | false => .gate ⟨0, -1, false, 0, 0⟩ "call-1" (hourAsk "m") true true 0
  | true => .respond ⟨1, -1, true, 0, 0⟩ "call-1" true

theorem reach_missionCalls : ∃ c, Reach sem anyStep (start missionCalls) c ∧
    (∃ row, getHITLApproval c.store.approvals "call-1" = some row ∧ row.state = .approved) ∧
    c.pool false = .ret (.gate ⟨"call-1", .pending "call-1", none⟩) ∧
    c.pool true = .ret (.verdict "call-1" (.error .resumeFailed)) := by
  have run := (Reach.start : Reach sem anyStep (start missionCalls) _)
    -- the ask is recorded
    |>.step false (.getHITLApproval "call-1") (.error .notFound)
    |>.step false .now 1
    |>.step false (.createHITLApproval (buildApprovalRow "call-1" (hourAsk "m") 1 hour)) (.ok ())
    -- the yes lands
    |>.step true (.lookupPending 1 "call-1") none
    |>.step true .now 1
    |>.step true (.resolveHITLApproval false "call-1" .approved (marshalApprovalResolution true) 1)
      (.ok ())
    |>.step true (.lookupPending 1 "call-1") none
    -- the hook finds the mission finished
    |>.step true (.getHITLApproval "call-1")
      (.ok ((buildApprovalRow "call-1" (hourAsk "m") 1 hour).resolve .approved
      (marshalApprovalResolution true) 1))
    |>.step true (.missionTerminal "m") true
    |>.step true (.deleteChainCheckpoint "call-1") (.error .notFound)
  exact ⟨_, run, ⟨_, rfl, rfl⟩, rfl, rfl⟩

/-- The row is closed, everybody has returned, and nobody was told success. -/
theorem closed_row_nobody_told : ∃ c, Reach sem anyStep (start missionCalls) c ∧
    (∃ row, getHITLApproval c.store.approvals "call-1" = some row ∧ row.state = .approved) ∧
    ∀ i, ∃ reply, c.pool i = .ret reply ∧ ¬ reply.succeeded "call-1" := by
  obtain ⟨c, hr, hrow, hgate, hresp⟩ := reach_missionCalls
  refine ⟨c, hr, hrow, fun i => ?_⟩
  cases i with
  | false => exact ⟨_, hgate, by simp [Reply.succeeded]⟩
  | true => exact ⟨_, hresp, by simp [Reply.succeeded]⟩

/-- In that run the row still has one winner, which is told what became of its verdict. -/
theorem row_closed_once_missionCalls : ∃ c, Reach sem anyStep (start missionCalls) c ∧
    ∃ i, c.store.winner "call-1" = some i ∧
      ∀ reply, c.pool i = .ret reply → reply.succeeded "call-1" ∨ reply.resumeFailed "call-1" := by
  obtain ⟨c, hr, ⟨row, hg, hst⟩, -, -⟩ := reach_missionCalls
  obtain ⟨i, hi, htold, -⟩ := (row_closed_once missionCalls c hr).2.1 "call-1" row hg (by simp [hst])
  exact ⟨c, hr, i, hi, htold⟩

/-- Nobody's silence would have let the call of that run through. -/
theorem asks_kept_missionCalls : ∃ c row, Reach sem anyStep (start missionCalls) c ∧
    getHITLApproval c.store.approvals "call-1" = some row ∧ row.onTimeout ≠ some .allow := by
  obtain ⟨c, hr, ⟨row, hg, -⟩, -, -⟩ := reach_missionCalls
  exact ⟨c, row, hr, hg, (asks_kept missionCalls c hr).1 row (List.mem_of_find?_eq_some hg)⟩

/-! ## 3. The gate and its row -/

/-- **A gated tool needs an approved row.**  In every run in which no inline close with a yes
comes too late (or fails to be written), a tool that ran on the strength of a durable row ran
on an approved one, and a call whose row ended denied or expired never ran. -/
theorem gated_tool_needs_approved_row (calls : ι → Party)
    (c : Config ι (World ι) Op Op.Res Reply) (hr : Reach sem InlineClean (start calls) c) :
    (∀ id ∈ c.store.executed, ∃ row, getHITLApproval c.store.approvals id = some row ∧
      row.state = .approved) ∧
    ∀ id row, getHITLApproval c.store.approvals id = some row →
      row.state = .denied ∨ row.state = .expired → id ∉ c.store.executed := by
  have hI : Inv true c.store := (reach_verified (fun _ _ _ _ _ h => h) calls hr).1
  refine ⟨hI.executed rfl, fun id row hg hst hmem => ?_⟩
  obtain ⟨row', hg', happ⟩ := hI.executed rfl id hmem
  cases (hg.symm.trans hg')
  rcases hst with h | h <;> simp [happ] at h

/-! ### A yes on the card after a no on the row

Process 0 holds a call at its gate.  Before the person in front of it says yes on the card,
somebody else says no from process 1.  The no is recorded; the inline close of the yes is
told "already resolved"; the tool runs. -/

def cardCalls : Bool → Party
  | false => .gate ⟨0, -1, false, 0, 0⟩ "call-1" (hourAsk "") false false 1
  | true => .respond ⟨1, -1, false, 0, 0⟩ "call-1" false

/-- The row of the call, as it is recorded. -/
def cardRow : HITLApproval := buildApprovalRow "call-1" (hourAsk "") 1 hour

theorem tool_runs_after_denial : ∃ c, Reach sem anyStep (start cardCalls) c ∧
    "call-1" ∈ c.store.executed ∧
    ∃ row, getHITLApproval c.store.approvals "call-1" = some row ∧ row.state = .denied := by
  have run := (Reach.start : Reach sem anyStep (start cardCalls) _)
    -- the gate parks its waiter and records the ask
    |>.step false (.registerWaiter 0 "call-1") 0
    |>.step false (.getHITLApproval "call-1") (.error .notFound)
    |>.step false .now 1
    |>.step false (.createHITLApproval cardRow) (.ok ())
    -- the no from elsewhere: no waiter, no checkpoint, and the UPDATE lands
    |>.step true (.lookupPending 1 "call-1") none
    |>.step true (.getChainCheckpoint "call-1") (.error .notFound)
    |>.step true .now 1
    |>.step true (.resolveHITLApproval false "call-1" .denied (marshalApprovalResolution false) 1)
      (.ok ())
    -- the yes on the card; its close matches no row
    |>.step false (.select true (some 0) true false) (.card true)
    |>.step false .now 1
    |>.step false (.resolveHITLApproval true "call-1" .approved (marshalApprovalResolution true) 1)
      (.error .notFound)
    |>.step false (.getHITLApproval "call-1")
      (.ok (cardRow.resolve .denied (marshalApprovalResolution false) 1))
    |>.step false (.execTool "call-1" true) true
  exact ⟨_, run, List.mem_cons_self, _, rfl, rfl⟩

/-- The same gate with nobody else around: the yes closes the row first, and the tool runs. -/
theorem gated_tool_needs_approved_row_cardCalls : ∃ c, Reach sem InlineClean (start cardCalls) c ∧
    "call-1" ∈ c.store.executed ∧
    ∃ row, getHITLApproval c.store.approvals "call-1" = some row ∧ row.state = .approved := by
  have run := (Reach.start : Reach sem InlineClean (start cardCalls) _)
    |>.step false (.registerWaiter 0 "call-1") 0
    |>.step false (.getHITLApproval "call-1") (.error .notFound)
    |>.step false .now 1
    |>.step false (.createHITLApproval cardRow) (.ok ())
    |>.step false (.select true (some 0) true false) (.card true)
    |>.step false .now 1
    |>.step false (.resolveHITLApproval true "call-1" .approved (marshalApprovalResolution true) 1)
      (.ok ()) rfl ⟨_, rfl, .inr ⟨rfl, rfl⟩⟩
    |>.step false (.lookupPending 0 "call-1") (some 0)
    |>.step false (.wake 0 ⟨true, ""⟩) ()
    |>.step false (.execTool "call-1" true) true
  exact ⟨_, run, List.mem_cons_self,
    (gated_tool_needs_approved_row cardCalls _ run).1 "call-1" List.mem_cons_self⟩

end Contenox.Approvals
