/-
# The handover of a suspended run: what every party may rely on

A run that releases its process leaves two things behind: a row in `hitl_approvals` and a
checkpoint in `chain_checkpoints`.  They are written by different parties, so a verdict can
land before the checkpoint is there.  Two parties look after that gap.  The one that SAVES the
checkpoint reads the row once more and resumes the run itself if it is answered by then.  The
one that CLOSES the row resumes the run through its resume hook.

`Owes` states the two duties.  The saver has done its own once the run is resumed, or once its
re-check has found the row still pending.  The closer has done its own once the run is
resumed, or when the row is closed and the re-check has not seen it pending: then the re-check
will find it closed.  No two parties that are both done can leave an answered checkpoint lying.

The claims need no duty.  A claim is a compare-and-set on `claimed_at`, and all there is to
show is that `claimed_at` never runs backwards.
-/
import Contenox.Approvals.Verdicts

namespace Contenox.Approvals

open Lib (Prog Contract)

variable {ι : Type}

/-! ## 1. Facts about a suspended run -/

/-- The row of `id` is there. -/
def HasRow (id : String) (s : World ι) : Prop := ∃ row, getHITLApproval s.approvals id = some row

/-- The row of `id` is closed. -/
def RowClosed (id : String) (s : World ι) : Prop :=
  ∃ row, getHITLApproval s.approvals id = some row ∧ row.state ≠ .pending

/-- Somebody has taken the run up: its checkpoint was saved, and is claimed or gone. -/
def Resumed (id : String) (s : World ι) : Prop :=
  s.saved id ≠ none ∧ claimOf s.checkpoints id ≠ some none

/-- Whoever closed the row has nothing left to do. -/
def Settled (id : String) (s : World ι) : Prop :=
  Resumed id s ∨ RowClosed id s ∧ s.rechecked id = false

/-- The thread that claimed a checkpoint last. -/
def holder (id : String) (s : World ι) : Option ι :=
  (s.claims.find? fun c => c.id = id).map Claim.by_

/-! ## 2. The steps considered -/

/-- The heartbeat of a live resumer is on time: whoever sends one still holds the claim. -/
def HeartbeatOnTime (i : ι) (s : World ι) : (o : Op) → o.Res → Prop
  | .touchChainCheckpointClaim id _, _ => holder id s = some i
  | _, _ => True

/-- A provider's own call id is new: no call before had it. -/
def NewCallID (s : World ι) : Op → Prop
  | .toolCallIDFor given => given ≠ "" → s.minter given = none
  | _ => True

/-- The steps of a run with heartbeats on time and call ids that are not used twice. -/
def Orderly : StepCond ι := fun i s o r => HeartbeatOnTime i s o r ∧ NewCallID s o

/-- The statements that the way to a resume rests on do not fail. -/
def ResumePathUp : (o : Op) → o.Res → Prop
  | .getHITLApproval _, r => r ≠ .error .failed
  | .recheckHITLApproval _, r => r ≠ .error .failed
  | .claimChainCheckpoint _ _ _, r => r ≠ .error .failed
  | .deleteChainCheckpoint _, r => r ≠ .error .failed
  | _, _ => True

/-- Whether a party that closes rows of others has a resume hook. -/
def Party.hasHook : Party → Bool
  | .respond h _ _ => h.hasHook
  | .respondWithGuidance h _ _ _ _ => h.hasHook
  | .respondAsAgentBounded h _ _ _ _ _ => h.hasHook
  | .answer h _ _ _ _ _ => h.hasHook
  | .sweepExpired h => h.hasHook
  | _ => false

/-- Once a re-check has found the row pending, only a process with a resume hook closes it. -/
def HookCloses (calls : ι → Party) (i : ι) (s : World ι) (o : Op) : Prop :=
  ∀ v row, o.verdict = some v → getHITLApproval s.approvals v.id = some row →
    row.state = .pending → s.rechecked v.id = true → (calls i).hasHook = true

/-- The steps of a handover that loses nothing. -/
def SafeHandover (calls : ι → Party) : StepCond ι :=
  fun i s o r => Orderly i s o r ∧ ResumePathUp o r ∧ HookCloses calls i s o

/-! ## 3. The contract -/

/-- The invariant.  The first five clauses say who can be where: an id belongs to the thread
that minted it, and no waiter is registered under it any more once its checkpoint is saved.
The last four are about claims, latest first. -/
structure HandoffInv (s : World ι) : Prop where
  saved_minted : ∀ id, s.saved id ≠ none → s.minter id ≠ none
  waiter_minted : ∀ p id, s.pending p id ≠ none → s.minter id ≠ none
  saved_alone : ∀ p id, s.saved id ≠ none → s.pending p id = none
  rechecked_saved : ∀ id, s.rechecked id = true → s.saved id ≠ none
  stored_saved : ∀ id, claimOf s.checkpoints id ≠ none → s.saved id ≠ none
  claimed_saved : ∀ c ∈ s.claims, s.saved c.id ≠ none
  claim_past : ∀ id t, claimOf s.checkpoints id = some (some t) → t ≤ s.clock
  claim_kept : ∀ c ∈ s.claims, ∀ f, claimOf s.checkpoints c.id = some f →
    ∃ t, f = some t ∧ c.at_ ≤ t
  claims_apart : s.claims.Pairwise fun later earlier => later.id = earlier.id →
    ∃ t, later.found = some t ∧ earlier.at_ ≤ t ∧ t + resumeClaimStaleness < later.clock

/-- When an operation may be issued. -/
def HandoffGuar (i : ι) (s : World ι) : Op → Prop
  | .createChainCheckpoint id _ =>
      s.minter id = some i ∧ s.saved id = none ∧ ∀ p, s.pending p id = none
  | .registerWaiter _ id => s.minter id = some i ∧ s.saved id = none
  | .recheckHITLApproval id => s.saved id = some i
  | .claimChainCheckpoint _ now stale =>
      now ≤ s.clock ∧ stale = (now : Int) - resumeClaimStaleness
  | .touchChainCheckpointClaim id now =>
      now ≤ s.clock ∧ (holder id s = some i →
        ∀ t, claimOf s.checkpoints id = some (some t) → t ≤ now)
  | _ => True

/-- The contract of a handover, over the steps that meet `ok`. -/
def handoff (ι : Type) [DecidableEq ι] (ok : StepCond ι) :
    Contract ι (World ι) Op Op.Res :=
  ⟨sem, ok, HandoffInv, HandoffGuar⟩

variable [DecidableEq ι] {ok : StepCond ι} {i : ι} {s s' : World ι} {o : Op} {r : o.Res}
  {id : String}

/-- No step of any thread destroys `F`. -/
abbrev Lasts (ok : StepCond ι) (F : World ι → Prop) : Prop := (handoff ι ok).Persistent F

theorem handoff_change (h : (handoff ι ok).Move i s o r s') : Change i s o s' :=
  sem_change h.2.2.2

/-- **What a step can do to the claim of `id`**: nothing, or what one of the statements on its
checkpoint writes. -/
theorem Change.claim_after (h : Change i s o s') (id : String) :
    claimOf s'.checkpoints id = claimOf s.checkpoints id ∨
    (∃ now, o = .createChainCheckpoint id now ∧ s'.saved id = some i ∧
      claimOf s'.checkpoints id = some none) ∨
    (∃ now stale found, o = .claimChainCheckpoint id now stale ∧
      claimOf s.checkpoints id = some found ∧ (∀ u, found = some u → (u : Int) < stale) ∧
      claimOf s'.checkpoints id = some (some now)) ∨
    (∃ now u, o = .touchChainCheckpointClaim id now ∧
      claimOf s.checkpoints id = some (some u) ∧ claimOf s'.checkpoints id = some (some now)) ∨
    claimOf s'.checkpoints id = none := by
  cases h with
  | save id' now t h =>
    by_cases hid : id = id'
    · subst hid
      exact .inr (.inl ⟨now, rfl, by simp, by simp [claimOf_create h]⟩)
    · exact .inl (by simp [claimOf_create h, hid])
  | claim id' now stale t h =>
    obtain ⟨found, hf, hstale, ht⟩ := claimOf_claim h
    by_cases hid : id = id'
    · subst hid
      exact .inr (.inr (.inl ⟨now, stale, found, rfl, hf, hstale, by simp [ht]⟩))
    · exact .inl (by simp [ht, hid])
  | touch id' now t h =>
    obtain ⟨u, hu, ht⟩ := claimOf_touch h
    by_cases hid : id = id'
    · subst hid
      exact .inr (.inr (.inr (.inl ⟨now, u, rfl, hu, by simp [ht]⟩)))
    · exact .inl (by simp [ht, hid])
  | annotate id' failure now t h => exact .inl (claimOf_annotate h)
  | drop id' t h =>
    by_cases hid : id = id'
    · exact .inr (.inr (.inr (.inr (by simp [claimOf_delete h, hid]))))
    · exact .inl (by simp [claimOf_delete h, hid])
  | _ => exact .inl rfl

/-- A claim on record is an earlier one or has just been written. -/
theorem Change.claims_after (h : Change i s o s') {c : Claim ι} (hc : c ∈ s'.claims) :
    c ∈ s.claims ∨ ∃ found, claimOf s.checkpoints c.id = some found ∧
      claimOf s'.checkpoints c.id = some (some c.at_) := by
  cases h with
  | claim id' now stale t h =>
    obtain ⟨found, hf, -, ht⟩ := claimOf_claim h
    rcases List.mem_cons.mp hc with rfl | hold
    · exact .inr ⟨found, hf, by simp [ht]⟩
    · exact .inl hold
  | _ => exact .inl hc

/-! ## 4. Facts that nobody can destroy -/

theorem persistent_hasRow (id : String) : Lasts ok (HasRow id) := by
  rintro i s o r s' hm ⟨row, hg⟩
  rcases (handoff_change hm).row_after hg with ⟨hg', -⟩ | ⟨_, -, -, -, -, hg'⟩
  · exact ⟨_, hg'⟩
  · exact ⟨_, hg'⟩

theorem persistent_rowClosed (id : String) : Lasts ok (RowClosed id) := by
  rintro i s o r s' hm ⟨row, hg, hst⟩
  exact ⟨row, (handoff_change hm).keeps_terminal hg hst, hst⟩

theorem persistent_minter (id : String) (j : ι) : Lasts ok fun s => s.minter id = some j := by
  intro i s o r s' hm hj
  cases handoff_change hm with
  | mint id' hfree | name _ id' hfree =>
    have hne : id ≠ id' := by
      rintro rfl
      cases hj.symm.trans hfree
    simpa [hne] using hj
  | _ => exact hj

/-- A checkpoint is saved once, so its saver stays its saver. -/
theorem persistent_saved (id : String) (j : ι) : Lasts ok fun s => s.saved id = some j := by
  intro i s o r s' hm hj
  cases handoff_change hm with
  | save id' now t h =>
    have hfree : s.saved id' = none := hm.2.1.2.1
    have hne : id ≠ id' := by
      rintro rfl
      cases hj.symm.trans hfree
    simpa [hne] using hj
  | _ => exact hj

theorem persistent_saved_ne_none (id : String) : Lasts ok fun s => s.saved id ≠ none := by
  intro i s o r s' hm hs
  obtain ⟨j, hj⟩ := Option.ne_none_iff_exists'.mp hs
  rw [persistent_saved id j i s o r s' hm hj]
  simp

theorem persistent_rechecked (id : String) : Lasts ok fun s => s.rechecked id = true := by
  intro i s o r s' hm h
  cases handoff_change hm with
  | recheck id' row _ _ =>
    simp only [Function.update_apply]
    split
    · rfl
    · exact h
  | _ => exact h

theorem persistent_clock (t : Time) : Lasts ok fun s => t ≤ s.clock := by
  intro i s o r s' hm h
  cases handoff_change hm with
  | advance d => exact Nat.le_add_right_of_le h
  | _ => exact h

/-- **A resumed run stays resumed**: its checkpoint is never saved again, and no statement
takes a claim back. -/
theorem persistent_resumed (id : String) : Lasts ok (Resumed id) := by
  rintro i s o r s' hm ⟨hs, hc⟩
  refine ⟨persistent_saved_ne_none id i s o r s' hm hs, ?_⟩
  rcases (handoff_change hm).claim_after id with
    h | ⟨now, rfl, -⟩ | ⟨now, stale, found, -, -, -, h⟩ | ⟨now, u, -, -, h⟩ | h
  · rwa [h]
  · exact absurd hm.2.1.2.1 hs
  all_goals simp [h]

/-- A closed row is not found pending any more. -/
theorem persistent_closed_unseen (id : String) :
    Lasts ok fun s => RowClosed id s ∧ s.rechecked id = false := by
  rintro i s o r s' hm ⟨hcl, hr⟩
  refine ⟨persistent_rowClosed id i s o r s' hm hcl, ?_⟩
  obtain ⟨row, hg, hst⟩ := hcl
  cases handoff_change hm with
  | recheck id' row' hg' hp =>
    have hne : id ≠ id' := by
      rintro rfl
      cases (hg.symm.trans hg')
      exact hst hp
    simpa [hne] using hr
  | _ => exact hr

theorem persistent_settled (id : String) : Lasts ok (Settled id) := by
  rintro i s o r s' hm (h | h)
  · exact .inl (persistent_resumed id i s o r s' hm h)
  · exact .inr (persistent_closed_unseen id i s o r s' hm h)

/-! ## 5. The invariant is preserved -/

/-- Only the minter of an id registers a waiter under it, and only before the save. -/
theorem Change.waiters (h : Change i s o s') {p : Proc} (hp : s'.pending p id ≠ none) :
    s.pending p id ≠ none ∨ o = .registerWaiter p id := by
  have hunreg : ∀ q id', (s.unregister q id').pending p id ≠ none → s.pending p id ≠ none := by
    intro q id' hne
    obtain ⟨ch, hch⟩ := Option.ne_none_iff_exists'.mp hne
    rw [unregister_eq_some hch]
    simp
  cases h with
  | register q id' =>
    by_cases hq : p = q
    · subst hq
      by_cases hid : id = id'
      · subst hid
        exact .inr rfl
      · exact .inl (by simpa [hid] using hp)
    · exact .inl (by simpa [hq] using hp)
  | release q id' ch | unregister q id' => exact .inl (hunreg q id' hp)
  | _ => exact .inl hp

/-- A checkpoint that becomes saved is saved now, by whoever moves. -/
theorem Change.newly_saved (h : Change i s o s') (hs : s'.saved id ≠ none) :
    s.saved id ≠ none ∨ ∃ now, o = .createChainCheckpoint id now := by
  cases h with
  | save id' now t _ =>
    by_cases hid : id = id'
    · subst hid
      exact .inr ⟨now, rfl⟩
    · exact .inl (by simpa [hid] using hs)
  | _ => exact .inl hs

variable (hm : (handoff ι ok).Move i s o r s')

include hm

theorem minter_kept (h : s.minter id ≠ none) : s'.minter id ≠ none := by
  obtain ⟨j, hj⟩ := Option.ne_none_iff_exists'.mp h
  rw [persistent_minter id j i s o r s' hm hj]
  simp

/-- What the invariant says about ids survives a step. -/
theorem handoff_preserves_ids :
    (∀ id, s'.saved id ≠ none → s'.minter id ≠ none) ∧
    (∀ p id, s'.pending p id ≠ none → s'.minter id ≠ none) ∧
    (∀ p id, s'.saved id ≠ none → s'.pending p id = none) ∧
    ∀ id, s'.rechecked id = true → s'.saved id ≠ none := by
  have hI := hm.1
  have hch := handoff_change hm
  refine ⟨fun id hs => ?_, fun p id hp => ?_, fun p id hs => ?_, fun id hr => ?_⟩
  · refine minter_kept hm ?_
    rcases hch.newly_saved hs with h | ⟨now, rfl⟩
    · exact hI.saved_minted id h
    · rw [hm.2.1.1]; simp
  · refine minter_kept hm ?_
    rcases hch.waiters hp with h | rfl
    · exact hI.waiter_minted p id h
    · rw [hm.2.1.1]; simp
  · by_contra hp
    rcases hch.newly_saved hs with h | ⟨now, rfl⟩
    · rcases hch.waiters hp with h' | rfl
      · exact h' (hI.saved_alone p id h)
      · exact h hm.2.1.2
    · rcases hch.waiters hp with h' | h'
      · exact h' (hm.2.1.2.2 p)
      · cases h'
  · have hold : s.saved id ≠ none := by
      cases hch with
      | recheck id' row _ _ =>
        by_cases hid : id = id'
        · subst hid
          rw [show s.saved id = some i from hm.2.1]
          simp
        · exact hI.rechecked_saved id (by simpa [hid] using hr)
      | _ => exact hI.rechecked_saved id hr
    exact persistent_saved_ne_none id i s o r s' hm hold

/-- What is stored has been saved. -/
theorem handoff_preserves_stored (id : String)
    (hc : claimOf s'.checkpoints id ≠ none) : s'.saved id ≠ none := by
  have hI := hm.1
  have hkept := persistent_saved_ne_none id i s o r s' hm
  rcases (handoff_change hm).claim_after id with
    h | ⟨now, -, hs, -⟩ | ⟨now, stale, found, -, hf, -⟩ | ⟨now, u, -, hu, -⟩ | h
  · exact hkept (hI.stored_saved id (h ▸ hc))
  · simp [hs]
  · exact hkept (hI.stored_saved id (by simp [hf]))
  · exact hkept (hI.stored_saved id (by simp [hu]))
  · exact absurd h hc

/-- A claim is never dated in the future. -/
theorem handoff_preserves_past (id : String) (u : Time)
    (hc : claimOf s'.checkpoints id = some (some u)) : u ≤ s'.clock := by
  -- a claim or a heartbeat writes a time that its thread has read off the clock
  refine persistent_clock u i s o r s' hm ?_
  rcases (handoff_change hm).claim_after id with
    h | ⟨now, -, -, h⟩ | ⟨now, stale, found, rfl, -, -, h⟩ | ⟨now, u', rfl, -, h⟩ | h
  · exact hm.1.claim_past id u (h ▸ hc)
  · cases h.symm.trans hc
  · cases h.symm.trans hc
    exact hm.2.1.1
  · cases h.symm.trans hc
    exact hm.2.1.1
  · cases h.symm.trans hc

omit hm

omit [DecidableEq ι] in
/-- The time a claim finds, when it is not the first one. -/
theorem claim_found (hI : HandoffInv s) {c : Claim ι} (hc : c ∈ s.claims) {now : Time}
    {found : Option Time} (hf : claimOf s.checkpoints c.id = some found)
    (hstale : ∀ u, found = some u → (u : Int) < (now : Int) - resumeClaimStaleness) :
    ∃ u, found = some u ∧ c.at_ ≤ u ∧ u + resumeClaimStaleness < now := by
  obtain ⟨u, rfl, hle⟩ := hI.claim_kept c hc found hf
  exact ⟨u, rfl, hle, Int.ofNat_lt.mp (Int.add_lt_of_lt_sub_right (hstale u rfl))⟩

/-- `claimed_at` never falls behind a claim that was made. -/
theorem handoff_preserves_kept (hbeat : ∀ i s o r, ok i s o r → HeartbeatOnTime i s o r)
    (hm : (handoff ι ok).Move i s o r s') (c : Claim ι) (hc : c ∈ s'.claims) (f : Option Time)
    (hf : claimOf s'.checkpoints c.id = some f) : ∃ t, f = some t ∧ c.at_ ≤ t := by
  have hI := hm.1
  have hch := handoff_change hm
  obtain hold | ⟨found, -, hnew⟩ := hch.claims_after hc
  · rcases hch.claim_after c.id with h | ⟨now, rfl, -⟩ | ⟨now, stale, found, rfl, hfound, hstale, h⟩ |
      ⟨now, u, rfl, hu, h⟩ | h
    · exact hI.claim_kept c hold f (h ▸ hf)
    · exact absurd hm.2.1.2.1 (hI.claimed_saved c hold)
    · cases h.symm.trans hf
      obtain ⟨-, rfl⟩ := hm.2.1
      obtain ⟨u, -, hle, hlt⟩ := claim_found hI hold hfound hstale
      exact ⟨now, rfl, Nat.le_trans hle (Nat.le_trans (Nat.le_add_right u _) (Nat.le_of_lt hlt))⟩
    · cases h.symm.trans hf
      obtain ⟨u', hu', hle⟩ := hI.claim_kept c hold _ hu
      cases hu'
      exact ⟨now, rfl, Nat.le_trans hle (hm.2.1.2 (hbeat _ _ _ _ hm.2.2.1) u hu)⟩
    · cases h.symm.trans hf
  · cases hnew.symm.trans hf
    exact ⟨c.at_, rfl, le_rfl⟩

/-- What has been claimed has been saved. -/
theorem handoff_preserves_claimed (hm : (handoff ι ok).Move i s o r s') (c : Claim ι)
    (hc : c ∈ s'.claims) : s'.saved c.id ≠ none := by
  have hI := hm.1
  refine persistent_saved_ne_none c.id i s o r s' hm ?_
  obtain hold | ⟨found, hf, -⟩ := (handoff_change hm).claims_after hc
  · exact hI.claimed_saved c hold
  · exact hI.stored_saved c.id (by simp [hf])

/-- **Two claims of one checkpoint are more than the staleness bound apart.** -/
theorem handoff_preserves_apart (hm : (handoff ι ok).Move i s o r s') :
    s'.claims.Pairwise fun later earlier => later.id = earlier.id →
      ∃ t, later.found = some t ∧ earlier.at_ ≤ t ∧ t + resumeClaimStaleness < later.clock := by
  have hI := hm.1
  cases handoff_change hm with
  | claim id' now stale t h =>
    obtain ⟨hnow, rfl⟩ := hm.2.1
    refine List.pairwise_cons.mpr ⟨fun c hc hid => ?_, hI.claims_apart⟩
    subst hid
    obtain ⟨found, hf, hstale, -⟩ := claimOf_claim h
    obtain ⟨u, rfl, hle, hlt⟩ := claim_found hI hc hf hstale
    obtain ⟨cp, hg, hcp⟩ := Option.map_eq_some_iff.mp hf
    exact ⟨u, by simp [hg, hcp], hle, Nat.lt_of_lt_of_le hlt hnow⟩
  | _ => exact hI.claims_apart

theorem handoff_preserved (hbeat : ∀ i s o r, ok i s o r → HeartbeatOnTime i s o r) :
    (handoff ι ok).Preserved := by
  intro i s o r s' hm
  obtain ⟨h1, h2, h3, h4⟩ := handoff_preserves_ids hm
  exact ⟨h1, h2, h3, h4, handoff_preserves_stored hm, handoff_preserves_claimed hm,
    handoff_preserves_past hm, handoff_preserves_kept hbeat hm, handoff_preserves_apart hm⟩

omit [DecidableEq ι] in
theorem handoffInv_init : HandoffInv (World.init ι) := by
  constructor <;> simp [World.init]

end Contenox.Approvals
