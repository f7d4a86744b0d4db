/-
# Suspended runs: one resumer at a time, and none left behind

The results about the handover of a suspended run, over every interleaving of the parties that
take part in one: runs that record an ask, save a checkpoint and look at the row again;
responders in any process, with or without a resume hook; the expiry sweep; the resume sweep.

* Two claims of one checkpoint lie more than the staleness bound apart.
* In a run of `SafeHandover` steps, whenever an answered ask has an unclaimed checkpoint, the
  party that closed the row or the party that saved the checkpoint is still at work.

The second needs its condition.  `requireResumerForVerdict` looks for a checkpoint BEFORE the
compare-and-set, so a process without a resume hook can find none, wait, and close the row
after the run has saved its checkpoint and seen the row pending.  The run at the end is that
race.
-/
import Contenox.Approvals.Duties

namespace Contenox.Approvals

open Lib (Prog Contract Config Reach anyStep)

variable {ι : Type} [DecidableEq ι]

/-! ## 1. Every reachable state -/

variable {calls : ι → Party}

/-- The invariant of a handover, and what each party owes when it has returned. -/
theorem reach_handoff {strict : Bool} {ok : StepCond ι}
    (hord : ∀ i s o r, ok i s o r → Orderly i s o r)
    (hsafe : strict = true → ∀ i s o r, ok i s o r → SafeHandover calls i s o r)
    (hparties : ∀ i, (calls i).handsOver = true) {c : Config ι (World ι) Op Op.Res Reply}
    (hr : Reach sem ok (start calls) c) :
    HandoffInv c.store ∧ ∀ i reply, c.pool i = .ret reply → Owes strict i [] [] c.store := by
  have hst : ∀ i, (handoff ι ok).Stable i (Duty strict i [] [] fun _ => True) := fun i =>
    duty_stable ((Contract.persistent_const True).stable i)
  have h0 : ∀ i : ι, Duty strict i [] [] (fun _ => True) (World.init ι) := by
    intro i
    refine ⟨fun _ => ⟨fun id h => ?_, fun id h => ?_⟩, trivial⟩
    · cases h
    · cases h
  have hpool := fun i => pays_party hord hsafe (hparties i) [] [] _ (Contract.persistent_const True)
  have hpres : (handoff ι ok).Preserved := handoff_preserved fun i s o r h => (hord i s o r h).1
  refine ⟨(Contract.reach_outline hpres handoffInv_init hst h0 hpool hr).1, fun i reply hret => ?_⟩
  exact (Contract.reach_post hpres handoffInv_init hst h0 hpool hr hret).1

/-- **The handover of a suspended run.**  With every heartbeat on time and every call id a new
one (a provider makes up its own), no checkpoint is claimed again before the claim it carries
(and so every earlier one) is stale.  And in every run of `SafeHandover` steps, an answered ask
with an unclaimed checkpoint has somebody left who will see to it: whoever closed the row, or
whoever saved the checkpoint, has not returned. -/
theorem suspended_run_handed_over (calls : ι → Party)
    (hparties : ∀ i, (calls i).handsOver = true) :
    (∀ c, Reach sem Orderly (start calls) c →
      c.store.claims.Pairwise fun later earlier => later.id = earlier.id →
        ∃ t, later.found = some t ∧ earlier.at_ ≤ t ∧
          t + resumeClaimStaleness < later.clock) ∧
    ∀ c, Reach sem (SafeHandover calls) (start calls) c → ∀ id row cp,
      getHITLApproval c.store.approvals id = some row → row.state ≠ .pending →
      getChainCheckpoint c.store.checkpoints id = some cp → cp.claimedAt = none →
      ∃ i, (c.store.winner id = some i ∨ c.store.saved id = some i) ∧
        ∀ reply, c.pool i ≠ .ret reply := by
  refine ⟨fun c hr => ?_, fun c hr id row cp hg hst hcp hun => ?_⟩
  · have hsafe : false = true → ∀ i s o r, Orderly i s o r → SafeHandover calls i s o r :=
      nofun
    exact (reach_handoff (fun _ _ _ _ h => h) hsafe hparties hr).1.claims_apart
  · obtain ⟨hI, howes⟩ := reach_handoff (fun _ _ _ _ h => h.1) (fun _ _ _ _ _ h => h) hparties hr
    have hV : Inv false c.store := (reach_verified (cleanInline_off _) calls hr).1
    -- the row has a closer, the checkpoint a saver
    obtain ⟨w, hw⟩ := (hV.winner id).mpr ⟨row, hg, hst⟩
    have hcl : claimOf c.store.checkpoints id = some none := by rw [claimOf_of_get hcp, hun]
    obtain ⟨k, hk⟩ := Option.ne_none_iff_exists'.mp (hI.stored_saved id (by rw [hcl]; simp))
    have hnot : ¬ Resumed id c.store := fun h => h.2 hcl
    by_contra hnone
    push Not at hnone
    obtain ⟨_, hkret⟩ := hnone k (.inr hk)
    obtain ⟨_, hwret⟩ := hnone w (.inl hw)
    -- both are done: the saver has seen the row pending, the closer says it cannot have
    have hseen : c.store.rechecked id = true := by
      rcases (howes k _ hkret rfl).2 id hk with hmem | hres | hre
      · cases hmem
      · exact absurd hres hnot
      · exact hre
    rcases (howes w _ hwret rfl).1 id hw with hmem | hres | ⟨-, hun⟩
    · cases hmem
    · exact hnot hres
    · cases hseen.symm.trans hun

/-! ## 2. A verdict that nobody takes up

Process 0 runs a turn whose call is gated and detached.  Process 1 answers it. -/

/-- The two parties.  `hook` is whether the responder's process can resume runs. -/
def answerCalls (hook : Bool) : Bool → Party
  | false => .run ⟨0, -1, true, 0, 0⟩ "call-1" (hourAsk "") true 0
  | true => .respond ⟨1, -1, hook, 0, 0⟩ "call-1" true

/-- The row of the call, open and answered. -/
def openRow : HITLApproval := buildApprovalRow "call-1" (hourAsk "") 1 hour

def answeredRow : HITLApproval := openRow.resolve .approved (marshalApprovalResolution true) 1

/-- The responder checks before the save and answers after the re-check.  Everybody returns;
the row is answered, and its checkpoint was never claimed. -/
theorem answered_run_left_behind :
    ∃ c, Reach sem anyStep (start (answerCalls false)) c ∧
      (∀ i, (answerCalls false i).handsOver = true) ∧ (∀ i, ∃ reply, c.pool i = .ret reply) ∧
      (∃ row, getHITLApproval c.store.approvals "call-1" = some row ∧ row.state = .approved) ∧
      ∃ cp, getChainCheckpoint c.store.checkpoints "call-1" = some cp ∧ cp.claimedAt = none := by
  have run := (Reach.start : Reach sem anyStep (start (answerCalls false)) _)
    -- the run records its ask
    |>.step false (.toolCallIDFor "call-1") "call-1"
    |>.step false (.getHITLApproval "call-1") (.error .notFound)
    |>.step false .now 1
    |>.step false (.createHITLApproval openRow) (.ok ())
    -- the responder finds no checkpoint, so it may spend the verdict
    |>.step true (.lookupPending 1 "call-1") none
    |>.step true (.getChainCheckpoint "call-1") (.error .notFound)
    -- the run saves its checkpoint and finds the row still pending
    |>.step false .now 1
    |>.step false (.createChainCheckpoint "call-1" 1) (.ok ())
    |>.step false (.recheckHITLApproval "call-1") (.ok openRow)
    -- the responder closes the row and has no hook
    |>.step true .now 1
    |>.step true (.resolveHITLApproval false "call-1" .approved (marshalApprovalResolution true) 1)
      (.ok ())
    |>.step true (.lookupPending 1 "call-1") none
  refine ⟨_, run, fun i => ?_, fun i => ?_, ⟨_, rfl, rfl⟩, _, rfl, rfl⟩
  · cases i <;> rfl
  cases i
  · exact ⟨_, rfl⟩
  · exact ⟨_, rfl⟩

/-- One more step of a run, which closes no row. -/
theorem closesNone {c c' : Lib.Config ι (World ι) Op Op.Res Reply} (i : ι) (o : Op) (r : o.Res)
    (h : Reach sem (SafeHandover calls) c c') {k : o.Res → Call Reply} {s' : World ι}
    (hp : c'.pool i = .op o k := by rfl) (hv : o.verdict = none := by rfl)
    (hb : HeartbeatOnTime i c'.store o r := by trivial)
    (hn : NewCallID c'.store o := by first | trivial | exact fun _ => rfl)
    (hu : ResumePathUp o r := by first | trivial | nofun)
    (hs : sem i c'.store o r = some s' := by rfl) :
    Reach sem (SafeHandover calls) c ⟨s', Function.update c'.pool i (k r)⟩ :=
  h.step i o r hp ⟨⟨hb, hn⟩, hu, fun _ _ h => absurd (h.symm.trans hv) (by simp)⟩ hs

/-- The same race with a hook in the responder's process.  The checkpoint does not decode, so
it is kept, with a failure. -/
theorem reach_answerCalls :
    ∃ c, Reach sem (SafeHandover (answerCalls true)) (start (answerCalls true)) c ∧
      (∀ i, ∃ reply, c.pool i = .ret reply) ∧
      getHITLApproval c.store.approvals "call-1" = some answeredRow ∧
      ∃ cp, getChainCheckpoint c.store.checkpoints "call-1" = some cp := by
  have run := (Reach.start : Reach sem (SafeHandover (answerCalls true)) (start (answerCalls true)) _)
    |> closesNone false (.toolCallIDFor "call-1") "call-1"
    |> closesNone false (.getHITLApproval "call-1") (.error .notFound)
    |> closesNone false .now 1
    |> closesNone false (.createHITLApproval openRow) (.ok ())
    |> closesNone true (.lookupPending 1 "call-1") none
    |> closesNone false .now 1
    |> closesNone false (.createChainCheckpoint "call-1" 1) (.ok ())
    |> closesNone false (.recheckHITLApproval "call-1") (.ok openRow)
    |> closesNone true .now 1
    |>.step true (.resolveHITLApproval false "call-1" .approved (marshalApprovalResolution true) 1)
      (.ok ()) rfl ⟨⟨trivial, trivial⟩, trivial, fun _ _ _ _ _ _ => rfl⟩
    |> closesNone true (.lookupPending 1 "call-1") none
    -- the hook: read the row, claim the checkpoint, fail to decode it
    |> closesNone true (.getHITLApproval "call-1") (.ok answeredRow)
    |> closesNone true .now 1
    |> closesNone true (.claimChainCheckpoint "call-1" 1 (-599)) (.ok ())
    |> closesNone true (.getChainCheckpoint "call-1") (.ok ⟨"call-1", none, some 1, 1, 1⟩)
    |> closesNone true .choose false
    |> closesNone true .now 1
    |> closesNone true (.setChainCheckpointFailure "call-1" "decode" 1) (.ok ())
  refine ⟨_, run, fun i => ?_, rfl, _, rfl⟩
  cases i
  · exact ⟨_, rfl⟩
  · exact ⟨_, rfl⟩

/-- There the answered ask still has its checkpoint, everybody has returned, and so the
checkpoint has been claimed. -/
theorem suspended_run_handed_over_answerCalls :
    ∃ c, Reach sem (SafeHandover (answerCalls true)) (start (answerCalls true)) c ∧
      getHITLApproval c.store.approvals "call-1" = some answeredRow ∧
      ∃ cp, getChainCheckpoint c.store.checkpoints "call-1" = some cp ∧ cp.claimedAt ≠ none := by
  obtain ⟨c, hr, hdone, hrow, cp, hcp⟩ := reach_answerCalls
  refine ⟨c, hr, hrow, cp, hcp, fun hun => ?_⟩
  obtain ⟨i, -, hbusy⟩ := (suspended_run_handed_over (answerCalls true)
    (fun i => by cases i <;> rfl)).2 c hr "call-1" answeredRow cp hrow nofun hcp hun
  obtain ⟨reply, hret⟩ := hdone i
  exact hbusy reply hret

end Contenox.Approvals
