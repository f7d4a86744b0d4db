/-
# Duties: outlines of the handover

The programs of a handover, each with one lemma about what its thread owes afterwards.

What a thread knows has the shape `Duty i W V F`: it still owes a resume for the rows `W` it
has closed and a re-check for the checkpoints `V` it has saved, and nothing else; and `F`
holds.  A program may close a row and then settle it, or save a checkpoint and then look at
its row again.  In between the debt stands in `W` or `V`; at the end of every party both are
empty.

`strict` says whether debts are kept account of at all.  They can only be paid in runs whose
steps meet `SafeHandover`; what the claims need holds in every run, and is had with
`strict := false`.
-/
import Contenox.Approvals.Handoff

namespace Contenox.Approvals

open Lib (Prog Contract of_guard)
open Lib.Contract (Outline)

variable {resume : ResumeHook} {svc : Service}

variable {ι α β : Type} [DecidableEq ι] {strict : Bool} {ok : StepCond ι} {i j : ι}
  {W V : List String} {F : World ι → Prop} {s s' : World ι} {o : Op} {id : String}
  {Q : α → World ι → Prop} {f : o.Res → Call α} {w : Option ChanId} {p : Proc} {calls : ι → Party}

/-! ## 1. Debts -/

/-- The rows a thread has closed are settled except for `W`; for the checkpoints it has saved,
except for `V`, the run is resumed or the row was seen pending afterwards. -/
def Owes (strict : Bool) (i : ι) (W V : List String) (s : World ι) : Prop :=
  strict = true →
    (∀ id, s.winner id = some i → id ∈ W ∨ Settled id s) ∧
    ∀ id, s.saved id = some i → id ∈ V ∨ Resumed id s ∨ s.rechecked id = true

/-- The knowledge of a thread. -/
def Duty (strict : Bool) (i : ι) (W V : List String) (F : World ι → Prop) (s : World ι) : Prop :=
  Owes strict i W V s ∧ F s

/-- A thread that knows as much runs `p` to an end with `Q`. -/
abbrev Owing (strict : Bool) (ok : StepCond ι) (i : ι)
    (W V : List String) (F : World ι → Prop) (p : Call α) (Q : α → World ι → Prop) : Prop :=
  (handoff ι ok).Outline i (Duty strict i W V F) p Q

/-- A row that becomes somebody's was closed by them just now. -/
theorem Change.newly_won (h : Change j s o s') (hw : s'.winner id = some i) :
    s.winner id = some i ∨ j = i ∧ ∃ v, o.verdict = some v ∧ v.id = id := by
  cases h with
  | resolve _ v row hov _ _ =>
    by_cases hid : id = v.id
    · subst hid
      have hji : j = i := by simpa [World.won] using hw
      exact .inr ⟨hji, v, hov, rfl⟩
    · exact .inl (by simpa [World.won, hid] using hw)
  | _ => exact .inl hw

/-- A checkpoint that becomes somebody's was saved by them just now. -/
theorem Change.newly_savedBy (h : Change j s o s') (hs : s'.saved id = some i) :
    s.saved id = some i ∨ j = i ∧ ∃ now, o = .createChainCheckpoint id now := by
  cases h with
  | save id' now t _ =>
    by_cases hid : id = id'
    · subst hid
      have hji : j = i := by simpa using hs
      exact .inr ⟨hji, now, rfl⟩
    · exact .inl (by simpa [hid] using hs)
  | _ => exact .inl hs

/-- Debts that are paid stay paid, and a step adds only what its own thread does. -/
theorem Owes.move {r : o.Res} (hm : (handoff ι ok).Move j s o r s') (h : Owes strict i W V s)
    {W' V' : List String} (hW : ∀ id ∈ W, id ∈ W' ∨ Settled id s') (hV : ∀ id ∈ V, id ∈ V')
    (hwon : j = i → ∀ v, o.verdict = some v → v.id ∈ W' ∨ Settled v.id s')
    (hsaved : j = i → ∀ id now, o = .createChainCheckpoint id now → id ∈ V') :
    Owes strict i W' V' s' := by
  intro hstrict
  obtain ⟨hw, hs⟩ := h hstrict
  have hch := handoff_change hm
  refine ⟨fun id hid => ?_, fun id hid => ?_⟩
  · rcases hch.newly_won hid with hold | ⟨hji, v, hv, rfl⟩
    · rcases hw id hold with hmem | hset
      · exact hW id hmem
      · exact .inr (persistent_settled id j s o r s' hm hset)
    · exact hwon hji v hv
  · rcases hch.newly_savedBy hid with hold | ⟨hji, now, ho⟩
    · rcases hs id hold with hmem | hres | hre
      · exact .inl (hV id hmem)
      · exact .inr (.inl (persistent_resumed id j s o r s' hm hres))
      · exact .inr (.inr (persistent_rechecked id j s o r s' hm hre))
    · exact .inl (hsaved hji id now ho)

theorem owes_stable : (handoff ι ok).Stable i (Owes strict i W V) := by
  intro j s o r s' hj hm h
  exact h.move hm (fun _ hid => .inl hid) (fun _ hid => hid) (fun hji => absurd hji hj)
    (fun hji => absurd hji hj)

omit [DecidableEq ι] in
/-- A row that is settled by now is off the list. -/
theorem Owes.drop_won (h : Owes strict i (id :: W) V s)
    (hs : strict = true → Settled id s) : Owes strict i W V s := by
  intro hstrict
  obtain ⟨hw, hv⟩ := h hstrict
  refine ⟨fun id' hid => ?_, hv⟩
  rcases hw id' hid with hmem | hset
  · rcases List.mem_cons.mp hmem with rfl | hmem
    · exact .inr (hs hstrict)
    · exact .inl hmem
  · exact .inr hset

omit [DecidableEq ι] in
/-- A checkpoint that is looked after by now is off the list. -/
theorem Owes.drop_saved (h : Owes strict i W (id :: V) s)
    (hs : strict = true → Resumed id s ∨ s.rechecked id = true) : Owes strict i W V s := by
  intro hstrict
  obtain ⟨hw, hv⟩ := h hstrict
  refine ⟨hw, fun id' hid => ?_⟩
  rcases hv id' hid with hmem | hset
  · rcases List.mem_cons.mp hmem with rfl | hmem
    · exact .inr (hs hstrict)
    · exact .inl hmem
  · exact .inr hset

/-! ## 2. Frames and rules -/

/-- The operations by which a thread gives up something it holds under an id of its own. -/
def Op.parks : Op → Bool
  | .registerWaiter _ _ => true
  | .createChainCheckpoint _ _ => true
  | _ => false

/-- The operations the contract says nothing about. -/
def Op.easy : Op → Bool
  | .registerWaiter _ _ => false
  | .createChainCheckpoint _ _ => false
  | .recheckHITLApproval _ => false
  | .claimChainCheckpoint _ _ _ => false
  | .touchChainCheckpointClaim _ _ => false
  | .resolveHITLApproval _ _ _ _ _ => false
  | .resolveHITLApprovalWithinBound _ _ _ _ _ => false
  | _ => true

theorem verdict_eq_none_of_easy (h : o.easy = true) : o.verdict = none := by
  cases o <;> simp_all [Op.easy, Op.verdict]

theorem parks_eq_false_of_easy (h : o.easy = true) : o.parks = false := by
  cases o <;> simp_all [Op.easy, Op.parks]

omit [DecidableEq ι] in
theorem handoffGuar_of_easy (h : o.easy = true) (s : World ι) : HandoffGuar i s o := by
  cases o <;> simp_all [Op.easy, HandoffGuar]

/-- A fact that thread `i` keeps as long as it does not park or save anything itself. -/
def Frame (ok : StepCond ι) (i : ι) (F : World ι → Prop) : Prop :=
  ∀ j s o r s', (handoff ι ok).Move j s o r s' → (j = i → o.parks = false) → F s → F s'

theorem Frame.stable (h : Frame ok i F) : (handoff ι ok).Stable i F :=
  fun j s o r s' hj hm hF => h j s o r s' hm (fun hji => absurd hji hj) hF

theorem Frame.and {G : World ι → Prop} (hF : Frame ok i F) (hG : Frame ok i G) :
    Frame ok i fun s => F s ∧ G s :=
  fun j s o r s' hm hp h => ⟨hF j s o r s' hm hp h.1, hG j s o r s' hm hp h.2⟩

theorem frame_of_persistent (h : Lasts ok F) : Frame ok i F :=
  fun j s o r s' hm _ hF => h j s o r s' hm hF

theorem duty_stable (hF : (handoff ι ok).Stable i F) :
    (handoff ι ok).Stable i (Duty strict i W V F) :=
  owes_stable.and hF

/-- A thread may know more than its program needs. -/
theorem duty_forget {ψ : World ι → Prop} {p : Call α} (h : Owing strict ok i W V F p Q) :
    Owing strict ok i W V (fun s => F s ∧ ψ s) p Q :=
  .pre (fun _ _ hs => ⟨hs.1, hs.2.1⟩) h

/-- An operation that neither closes a row nor saves a checkpoint, with what its thread knows
afterwards. -/
theorem duty_learn (F' : o.Res → World ι → Prop) (hF' : ∀ r, (handoff ι ok).Stable i (F' r))
    (hv : o.verdict = none) (hc : ∀ id now, o ≠ .createChainCheckpoint id now)
    (hg : ∀ s, HandoffInv s → F s → HandoffGuar i s o)
    (hl : ∀ s r s', F s → (handoff ι ok).Move i s o r s' → F' r s')
    (hk : ∀ r, Owing strict ok i W V (F' r) (f r) Q) :
    Owing strict ok i W V F (issue o >>= f) Q := by
  refine .learn _ (fun s hs hp => hg s hs hp.2)
    (fun r => duty_stable (hF' r)) (fun s r s' hp hm => ⟨?_, hl s r s' hp.2 hm⟩) hk
  exact hp.1.move hm (fun _ h => .inl h) (fun _ h => h)
    (fun _ v h => absurd (h.symm.trans hv) (by simp)) (fun _ id now h => absurd h (hc id now))

/-- An easy operation, with what its result tells. -/
theorem duty_ask (hF : Frame ok i F) (ψ : o.Res → World ι → Prop)
    (hψ : ∀ r, (handoff ι ok).Stable i (ψ r)) (he : o.easy = true)
    (hl : ∀ s r s', F s → (handoff ι ok).Move i s o r s' → ψ r s')
    (hk : ∀ r, Owing strict ok i W V (fun s => F s ∧ ψ r s) (f r) Q) :
    Owing strict ok i W V F (issue o >>= f) Q := by
  refine duty_learn _ (fun r => hF.stable.and (hψ r))
    (verdict_eq_none_of_easy he) (fun id now h => ?_) (fun s _ _ => handoffGuar_of_easy he s)
    (fun s r s' hs hm => ⟨hF i s o r s' hm (fun _ => parks_eq_false_of_easy he) hs,
      hl s r s' hs hm⟩) hk
  rw [h] at he
  simp [Op.easy] at he

/-- An easy operation whose result is of no consequence. -/
theorem duty_easy (hF : Frame ok i F) (he : o.easy = true)
    (hk : ∀ r, Owing strict ok i W V F (f r) Q) : Owing strict ok i W V F (issue o >>= f) Q := by
  refine duty_ask hF (fun _ _ => True) (fun _ => (Contract.persistent_const True).stable i) he
    (fun _ _ _ _ _ => trivial) fun r => ?_
  exact duty_forget (hk r)

/-- A program that owes as much after as before, and disturbs nothing. -/
def Calm (strict : Bool) (ok : StepCond ι) (i : ι) (p : Call α) : Prop :=
  ∀ (W V : List String) (F : World ι → Prop), Frame ok i F →
    Owing strict ok i W V F p fun _ => Duty strict i W V F

theorem calm_pure (a : α) : Calm strict ok i (pure a : Call α) :=
  fun _ _ _ _ => .done

theorem calm_easy (he : o.easy = true) (hf : ∀ r, Calm strict ok i (f r)) :
    Calm strict ok i (issue o >>= f) :=
  fun W V F hF => duty_easy hF he fun r => hf r W V F hF

theorem calm_issue (he : o.easy = true) : Calm strict ok i (issue o) :=
  calm_easy he fun r => calm_pure r

theorem calm_ite {c : Prop} [Decidable c] {p q : Call α} (hp : c → Calm strict ok i p)
    (hq : ¬ c → Calm strict ok i q) : Calm strict ok i (if c then p else q) := by
  split
  · exact hp ‹_›
  · exact hq ‹_›

/-- A program that owes as much after as before, and keeps every fact that lasts. -/
def Pays (strict : Bool) (ok : StepCond ι) (i : ι) (p : Call α) : Prop :=
  ∀ (W V : List String) (F : World ι → Prop), Lasts ok F →
    Owing strict ok i W V F p fun _ => Duty strict i W V F

theorem Calm.pays {p : Call α} (h : Calm strict ok i p) : Pays strict ok i p :=
  fun W V F hF => h W V F (frame_of_persistent hF)

theorem Pays.bind {p : Call α} {f : α → Call β} (hp : Pays strict ok i p)
    (hf : ∀ a, Pays strict ok i (f a)) : Pays strict ok i (p >>= f) :=
  fun W V F hF => Outline.bind (fun a => hf a W V F hF) (hp W V F hF)

theorem pays_pure (a : α) : Pays strict ok i (pure a : Call α) := (calm_pure a).pays

theorem pays_easy (he : o.easy = true) (hf : ∀ r, Pays strict ok i (f r)) :
    Pays strict ok i (issue o >>= f) :=
  fun W V F hF => duty_easy (frame_of_persistent hF) he fun r => hf r W V F hF

/-! ## 3. Programs that disturb nothing -/

theorem easy_of_routine (h : o.Routine) : o.easy = true := by
  cases o <;> first | rfl | exact h.elim

/-- A routine program disturbs nothing. -/
theorem Routine.calm : ∀ {p : Call α}, Routine p → Calm strict ok i p
  | .ret a, _ => calm_pure a
  | .op _ _, h => calm_easy (easy_of_routine h.1) fun r => Routine.calm (h.2 r)

/-- Without its hook, a delivery is a wake-up at most. -/
theorem calm_deliver_noHook (id : String) (ans : Answer) :
    Calm strict ok i (deliver svc id ans false) := by
  refine calm_easy rfl fun r => ?_
  cases r with
  | some ch => exact calm_easy rfl fun _ => calm_pure _
  | none =>
    cases svc.hook with
    | none | some _ => exact calm_pure _

/-- Recording an ask: if it says so, the row is there. -/
theorem duty_recordPendingApproval (hF : Frame ok i F) (ceiling : Int) (id : String)
    (req : ApprovalRequest) :
    Owing strict ok i W V F (recordPendingApproval ceiling id req)
      fun r => Duty strict i W V fun s => F s ∧ (r = .ok () → HasRow id s) := by
  have hfail : ∀ e : Err, Owing strict ok i W V F (pure (.error e) : Call (Except Err Unit))
      fun r => Duty strict i W V fun s => F s ∧ (r = .ok () → HasRow id s) := fun e =>
    .ret fun s _ hs => ⟨hs.1, hs.2, nofun⟩
  -- a read that answers with a row has seen it
  have hread : ∀ (f : Except SqlErr HITLApproval → Call (Except Err Unit)),
      (∀ row, f (.ok row) = pure (.ok ())) →
      (∀ e, Owing strict ok i W V F (f (.error e))
        fun r => Duty strict i W V fun s => F s ∧ (r = .ok () → HasRow id s)) →
      Owing strict ok i W V F (issue (.getHITLApproval id) >>= f)
        fun r => Duty strict i W V fun s => F s ∧ (r = .ok () → HasRow id s) := by
    intro f hok herr
    refine duty_ask hF (fun r s => (∃ row, r = .ok row) → HasRow id s)
      (fun r => (persistent_hasRow id).imp.stable i) rfl (fun s r s' _ hm => ?_) fun r => ?_
    · have hsem : read s (getHITLApproval s.approvals id) r = some s' := hm.2.2.2
      obtain ⟨rfl, hrow, -⟩ := read_eq_some hsem
      rintro ⟨row, hr⟩
      exact ⟨row, hrow row hr⟩
    · cases r with
      | ok row =>
        rw [hok row]
        exact .ret fun s _ hs => ⟨hs.1, hs.2.1, fun _ => hs.2.2 ⟨row, rfl⟩⟩
      | error e => exact duty_forget (herr e)
  unfold recordPendingApproval
  split
  · exact hfail _
  refine hread _ (fun _ => rfl) fun e => ?_
  cases e with
  | failed => exact hfail _
  | notFound =>
    refine duty_easy hF rfl fun now => ?_
    refine duty_ask hF (fun r s => r = .ok () → HasRow id s) (fun r => ?_) rfl
      (fun s r s' _ hm => ?_) fun r => ?_
    · exact (persistent_hasRow id).imp.stable i
    · rintro rfl
      obtain ⟨t, ht, rfl⟩ := Option.map_eq_some_iff.mp hm.2.2.2
      obtain ⟨-, hget⟩ := Lib.Table.insert_eq_some ht
      exact ⟨_, by simp [getHITLApproval, hget, buildApprovalRow]; rfl⟩
    · cases r with
      | ok u => exact .ret fun s _ hs => ⟨hs.1, hs.2.1, fun _ => hs.2.2 rfl⟩
      | error e =>
        exact duty_forget (hread _ (fun _ => rfl) fun _ => hfail _)

/-! ## 4. An id of one's own -/

/-- Thread `i` made up `id`, has not saved a checkpoint under it, and no waiter is registered
for it but `w`, in process `p`. -/
def Held (i : ι) (id : String) (p : Proc) (w : Option ChanId) (s : World ι) : Prop :=
  s.minter id = some i ∧ s.saved id = none ∧
    ∀ q ch, s.pending q id = some ch → q = p ∧ w = some ch

/-- The same with no waiter at all. -/
def Mine (i : ι) (id : String) (s : World ι) : Prop :=
  s.minter id = some i ∧ s.saved id = none ∧ ∀ q, s.pending q id = none

omit [DecidableEq ι] in
theorem held_none : Held i id p none s ↔ Mine i id s := by
  unfold Held Mine
  simp [Option.eq_none_iff_forall_ne_some]

/-- **Nobody else registers a waiter under the id or saves its checkpoint.** -/
theorem frame_held (id : String) (p : Proc) (w : Option ChanId) : Frame ok i (Held i id p w) := by
  rintro j s o r s' hm hparks ⟨hmint, hsaved, hwait⟩
  have hch := handoff_change hm
  have hown : s.minter id = some j → o.parks = false := fun h =>
    hparks (Option.some.inj (h.symm.trans hmint))
  refine ⟨persistent_minter id i j s o r s' hm hmint, ?_, fun q ch hq => ?_⟩
  · by_contra hne
    rcases hch.newly_saved hne with h | ⟨now, rfl⟩
    · exact h hsaved
    · cases hown hm.2.1.1
  · have hreg : s'.pending q id ≠ none := by rw [hq]; simp
    rcases hch.waiters hreg with h | rfl
    · refine hwait q ch ?_
      -- the entry was there before: it has not been replaced, since only registration writes
      cases hch with
      | register q' id' =>
        have hne : ¬ (q = q' ∧ id = id') := by
          rintro ⟨rfl, rfl⟩
          cases hown hm.2.1.1
        simp only [Function.update_apply] at hq
        split at hq
        · rename_i hqq
          subst hqq
          simp only [Function.update_apply] at hq
          split at hq
          · exact absurd ⟨rfl, ‹_›⟩ hne
          · exact hq
        · exact hq
      | release q' id' ch' | unregister q' id' => exact unregister_eq_some hq
      | _ => exact hq
    · cases hown hm.2.1.1

theorem frame_mine (id : String) : Frame ok i (Mine i id) := by
  have h : Mine i id = Held i id 0 none := funext fun s => propext held_none.symm
  rw [h]
  exact frame_held id 0 none

omit [DecidableEq ι] in
/-- Taking one's waiter out leaves none. -/
theorem Held.unregister (h : Held i id p w s) : Mine i id (s.unregister p id) := by
  refine ⟨h.1, h.2.1, fun q => ?_⟩
  by_contra hne
  obtain ⟨ch, hch⟩ := Option.ne_none_iff_exists'.mp hne
  obtain ⟨rfl, -⟩ := h.2.2 q ch (unregister_eq_some hch)
  simp [World.unregister] at hch

variable (hF : Lasts ok F)

include hF

omit hF [DecidableEq ι] in
/-- An id that nobody had is the thread's own once it has taken it. -/
theorem mine_of_new [DecidableEq ι] (hI : HandoffInv s) (hfree : s.minter id = none) :
    Mine i id { s with minter := Function.update s.minter id (some i) } := by
  refine ⟨by simp, ?_, fun q => ?_⟩
  · by_contra hne
    exact hI.saved_minted id hne hfree
  · by_contra hne
    exact hI.waiter_minted q id hne hfree

/-- A minted id is the thread's own. -/
theorem duty_mint {f : String → Call α}
    (hk : ∀ id, Owing strict ok i W V (fun s => F s ∧ Mine i id s) (f id) Q) :
    Owing strict ok i W V F (issue .mintCallID >>= f) Q := by
  refine duty_ask (frame_of_persistent hF) (fun id => Mine i id)
    (fun id => (frame_mine id).stable) rfl (fun s id s' _ hm => ?_) hk
  have hI := hm.1
  obtain ⟨hfree, rfl⟩ := of_guard hm.2.2.2
  exact mine_of_new hI hfree

/-- So is the id of a call, the provider's included, where ids are not used twice. -/
theorem duty_callID (hord : ∀ i s o r, ok i s o r → Orderly i s o r) (given : String)
    {f : String → Call α} (hk : ∀ id, Owing strict ok i W V (fun s => F s ∧ Mine i id s) (f id) Q) :
    Owing strict ok i W V F (issue (.toolCallIDFor given) >>= f) Q := by
  refine duty_ask (frame_of_persistent hF) (fun id => Mine i id)
    (fun id => (frame_mine id).stable) rfl (fun s id s' _ hm => ?_) hk
  have hI := hm.1
  have hnew : given ≠ "" → s.minter given = none := (hord _ _ _ _ hm.2.2.1).2
  obtain ⟨⟨hminted, hkept⟩, rfl⟩ := of_guard hm.2.2.2
  have hfree : s.minter id = none := by
    by_cases hg : given = ""
    · exact hminted hg
    · rw [hkept hg]
      exact hnew hg
  rw [if_pos hfree]
  exact mine_of_new hI hfree

/-- The id of a call: the one it was given, or a new one. -/
theorem duty_ownID (given : String) :
    Owing strict ok i W V (fun s => F s ∧ Mine i given s)
      (if given = "" then issue .mintCallID else pure given)
      fun id => Duty strict i W V fun s => F s ∧ Mine i id s := by
  split
  · exact duty_forget (duty_mint hF fun id => .ret fun _ _ h => h)
  · exact .ret fun _ _ h => h

/-- Parking a waiter under an id of one's own. -/
theorem duty_register {f : ChanId → Call α}
    (hk : ∀ ch, Owing strict ok i W V (fun s => F s ∧ Held i id p (some ch) s) (f ch) Q) :
    Owing strict ok i W V (fun s => F s ∧ Mine i id s) (issue (.registerWaiter p id) >>= f) Q := by
  refine duty_learn _ (fun ch => (hF.stable i).and (frame_held id p (some ch)).stable) rfl
    (fun _ _ => by simp) (fun s _ hs => ⟨hs.2.1, hs.2.2.1⟩) (fun s ch s' hs hm => ?_) hk
  refine ⟨hF i s _ ch s' hm hs.1, ?_⟩
  obtain ⟨-, rfl⟩ := of_guard hm.2.2.2
  refine ⟨hs.2.1, hs.2.2.1, fun q ch' hq => ?_⟩
  by_cases hqp : q = p
  · subst hqp
    exact ⟨rfl, by simpa using hq⟩
  · simp [hqp, hs.2.2.2 q] at hq

theorem duty_deletePending {f : Unit → Call α}
    (hk : Owing strict ok i W V (fun s => F s ∧ Mine i id s) (f ()) Q) :
    Owing strict ok i W V (fun s => F s ∧ Held i id p w s)
      (issue (.deletePending p id) >>= f) Q := by
  refine duty_learn _ (fun _ => (hF.stable i).and (frame_mine id).stable) rfl (fun _ _ => by simp)
    (fun _ _ _ => trivial) (fun s r s' hs hm => ?_) fun _ => hk
  refine ⟨hF i s _ r s' hm hs.1, ?_⟩
  obtain rfl := Option.some.inj hm.2.2.2
  exact hs.2.unregister

/-- The waiter is let go of before the run parks. -/
theorem duty_releaseParked :
    Owing strict ok i W V (fun s => F s ∧ Held i id svc.proc w s)
      (releaseParked svc id w) fun _ => Duty strict i W V fun s => F s ∧ Mine i id s := by
  cases w with
  | none => exact .ret fun s _ hs => ⟨hs.1, hs.2.1, held_none.mp hs.2.2⟩
  | some ch =>
    refine duty_learn (fun _ s => F s ∧ Mine i id s)
      (fun _ => (hF.stable i).and (frame_mine id).stable) rfl (fun _ _ => by simp)
      (fun _ _ _ => trivial) (fun s r s' hs hm => ?_) fun _ => .done
    refine ⟨hF i s _ r s' hm hs.1, ?_⟩
    obtain rfl := Option.some.inj hm.2.2.2
    split
    · exact hs.2.unregister
    -- another channel stands there: not possible, but nothing is registered here either
    rename_i hno
    refine ⟨hs.2.1, hs.2.2.1, fun q => ?_⟩
    by_contra hne
    obtain ⟨ch', hch'⟩ := Option.ne_none_iff_exists'.mp hne
    obtain ⟨rfl, heq⟩ := hs.2.2.2 q ch' hch'
    exact hno (hch'.trans heq.symm)

/-- Saving the checkpoint of an id of one's own.  From then on the thread owes a re-check. -/
theorem duty_saveCheckpoint :
    Owing strict ok i W V (fun s => F s ∧ Mine i id s) (saveCheckpoint id) fun r => match r with
        | .ok () => Duty strict i W (id :: V) fun s => F s ∧ s.saved id = some i
        | .error _ => Duty strict i W V F := by
  refine duty_easy ((frame_of_persistent hF).and (frame_mine id)) rfl fun now => ?_
  refine .op (fun s _ hs => ⟨hs.2.2.1, hs.2.2.2.1, hs.2.2.2.2⟩) fun r => ?_
  cases r with
  | ok u =>
    refine ⟨_, duty_stable ((hF.and (persistent_saved id i)).stable i), fun s s' hp hm => ?_,
      Outline.ret fun _ _ h => h⟩
    refine ⟨?_, hF i s _ _ s' hm hp.2.1, ?_⟩
    · refine hp.1.move hm (fun _ h => .inl h) (fun _ h => List.mem_cons_of_mem _ h)
        (nofun) (fun _ id' now' h => ?_)
      cases h
      exact List.mem_cons_self
    · obtain ⟨t, -, rfl⟩ := Option.map_eq_some_iff.mp hm.2.2.2
      simp
  | error e =>
    refine ⟨_, duty_stable (hF.stable i), fun s s' hp hm => ?_, Outline.ret fun _ _ h => h⟩
    have hsem : sem i s (.createChainCheckpoint id now) (.error e) = some s' := hm.2.2.2
    cases e with
    | failed =>
      cases hsem
      exact ⟨hp.1, hp.2.1⟩
    | notFound => cases hsem

omit hF

/-! ## 5. Resuming

`P` is what the caller wants out of a resume.  The closer of a row wants it settled, the
saver of a checkpoint wants the run resumed; both follow once no unclaimed checkpoint is left
under a closed row. -/

def Resumes (strict : Bool) (ok : StepCond ι) (i : ι)
    (resume : ResumeHook) : Prop :=
  ∀ (id : String) (W V : List String) (F P : World ι → Prop), Lasts ok F →
    Lasts ok P →
    (∀ s, HandoffInv s → F s → RowClosed id s → claimOf s.checkpoints id ≠ some none → P s) →
    Owing strict ok i W V F (resume id) fun _ =>
      Duty strict i W V fun s => F s ∧ (strict = true → (∀ s, F s → RowClosed id s) → P s)

/-- What the re-check after a save has learnt. -/
def Rechecked (strict : Bool) (id : String) (r : Except SqlErr HITLApproval) (s : World ι) :
    Prop :=
  match r with
  | .ok row => if row.state = .pending then s.rechecked id = true else RowClosed id s
  | .error _ => strict = false

theorem persistent_recheckedFact (id : String) (r : Except SqlErr HITLApproval) :
    Lasts ok (Rechecked strict id r) := by
  cases r with
  | error e => exact Contract.persistent_const _
  | ok row =>
    unfold Rechecked
    by_cases hp : row.state = .pending
    · simpa [hp] using persistent_rechecked id
    · simpa [hp] using persistent_rowClosed id

section Resuming

variable (hup : strict = true → ∀ i s o r, ok i s o r → ResumePathUp o r)

include hup

/-- The saver's re-check pays its debt: the row was still pending, or the run is resumed. -/
theorem duty_resumeIfAlreadyAnswered (hres : Resumes strict ok i resume) (hF : Lasts ok F) :
    Owing strict ok i W (id :: V) (fun s => F s ∧ s.saved id = some i ∧ HasRow id s)
      (resumeIfAlreadyAnswered resume id) fun _ => Duty strict i W V F := by
  refine duty_learn (fun r s => (F s ∧ s.saved id = some i) ∧ Rechecked strict id r s)
    (fun r => ((hF.and (persistent_saved id i)).and (persistent_recheckedFact id r)).stable i) rfl
    (fun _ _ => by simp) (fun s _ hs => hs.2.1) (fun s r s' hs hm => ?_) fun r => ?_
  · refine ⟨(hF.and (persistent_saved id i)) i s _ r s' hm ⟨hs.1, hs.2.1⟩, ?_⟩
    have hok := fun hstrict => hup hstrict _ _ _ _ hm.2.2.1
    have hsem : (read s (getHITLApproval s.approvals id) r).map _ = some s' := hm.2.2.2
    obtain ⟨s₁, hread, hs'⟩ := Option.map_eq_some_iff.mp hsem
    obtain ⟨rfl, hrow, hnone⟩ := read_eq_some hread
    match r with
    | .error .failed => exact Bool.eq_false_iff.mpr fun hstrict => hok hstrict rfl
    | .error .notFound =>
      obtain ⟨row, hg⟩ := hs.2.2
      cases hg.symm.trans (hnone rfl)
    | .ok row =>
      by_cases hp : row.state = .pending
      · subst hs'
        simp [Rechecked, hp]
      · subst hs'
        simp only [Rechecked, hp]
        exact ⟨row, hrow row rfl, hp⟩
  · cases r with
    | error e =>
      refine .ret fun s _ hs => ⟨hs.1.drop_saved fun hstrict => ?_, hs.2.1.1⟩
      cases hstrict.symm.trans hs.2.2
    | ok row =>
      by_cases hp : row.state = .pending
      · simp only [hp]
        refine .ret fun s _ hs => ⟨hs.1.drop_saved fun _ => .inr ?_, hs.2.1.1⟩
        simpa [Rechecked, hp] using hs.2.2
      · simp only [hp]
        have hcl : ∀ s, (F s ∧ s.saved id = some i) ∧ Rechecked strict id (.ok row) s →
            RowClosed id s := fun s hs => by simpa [Rechecked, hp] using hs.2
        refine .bind (fun _ => ?_) (hres id W (id :: V) _ (Resumed id)
          ((hF.and (persistent_saved id i)).and (persistent_recheckedFact id _))
          (persistent_resumed id) fun s _ hs _ hc => ⟨by simp [hs.1.2], hc⟩)
        refine .ret fun s _ hs => ⟨hs.1.drop_saved fun hstrict => .inl ?_, hs.2.1.1.1⟩
        exact hs.2.2 hstrict hcl

variable (hord : ∀ i s o r, ok i s o r → Orderly i s o r) {mayAsk : Bool}

include hord

omit hup in
/-- A time read off the clock stays good for a heartbeat as long as the claim is held: whoever
else writes `claimed_at` has taken the claim over. -/
theorem stable_beat (id : String) (now : Time) : (handoff ι ok).Stable i fun s => now ≤ s.clock ∧ (holder id s = some i →
      ∀ t, claimOf s.checkpoints id = some (some t) → t ≤ now) := by
  rintro j s o r s' hj hm ⟨hnow, h⟩
  refine ⟨persistent_clock now j s o r s' hm hnow, fun hh u hu => ?_⟩
  cases handoff_change hm with
  | save id' now' t hc =>
    rw [claimOf_create hc] at hu
    split at hu
    · cases hu
    · exact h hh u hu
  | claim id' now' stale t hc =>
    obtain ⟨-, -, -, hset⟩ := claimOf_claim hc
    by_cases hid : id = id'
    · subst hid
      exact absurd (by simpa [holder] using hh) hj
    have hid' : ¬ id' = id := Ne.symm hid
    refine h ?_ u ?_
    · simpa [holder, hid'] using hh
    · simpa [hset, hid] using hu
  | touch id' now' t hc =>
    obtain ⟨-, -, hset⟩ := claimOf_touch hc
    by_cases hid : id = id'
    · subst hid
      have hown : holder id s = some j := (hord _ _ _ _ hm.2.2.1).1
      exact absurd (Option.some.inj (hown.symm.trans hh)) hj
    · exact h hh u (by simpa [hset, hid] using hu)
  | annotate id' failure now' t hc => exact h hh u (by rwa [claimOf_annotate hc] at hu)
  | drop id' t hc =>
    rw [claimOf_delete hc] at hu
    split at hu
    · cases hu
    · exact h hh u hu
  | _ => exact h hh u hu

omit hup hord in
/-- The clock, read: a time no later than now. -/
theorem move_now {t : Time} (hm : (handoff ι ok).Move i s .now t s') : s' = s ∧ t = s.clock := by
  obtain ⟨ht, rfl⟩ := of_guard hm.2.2.2
  exact ⟨rfl, ht⟩

omit hup in
theorem pays_heartbeat (id : String) (beats : Nat) : Pays strict ok i (heartbeat id beats) := by
  induction beats with
  | zero => exact pays_pure _
  | succ beats ih =>
    refine pays_easy rfl fun ticks => ?_
    cases ticks with
    | false => exact pays_pure _
    | true =>
      intro W V F hF
      refine duty_ask (frame_of_persistent hF) _ (fun now => stable_beat hord id now) rfl
        (fun s now s' _ hm => ?_) fun now => ?_
      · obtain ⟨rfl, rfl⟩ := move_now hm
        exact ⟨le_rfl, fun _ t ht => hm.1.claim_past id t ht⟩
      · exact duty_learn _ (fun _ => hF.stable i) rfl (fun _ _ => by simp)
          (fun s _ hs => hs.2) (fun s r s' hs hm => hF i s _ r s' hm hs.1) fun _ => ih W V F hF

omit hup in
/-- A resumed run that suspends again (if it may) leaves a row, a checkpoint, and a re-check to
be made. -/
theorem duty_runResumed (hF : Lasts ok F) (ceiling : Int) (id : String)
    (verdict : Option Bool) (mayAsk : Bool) :
    Owing strict ok i W V F (runResumed ceiling id verdict mayAsk) fun r => match r with
        | .suspended newID => Duty strict i W (newID :: V) fun s =>
            (F s ∧ s.saved newID = some i ∧ HasRow newID s) ∧ mayAsk = true
        | _ => Duty strict i W V F := by
  have hFr : Frame ok i F := frame_of_persistent hF
  have hgoes : Calm strict ok i (if verdict = some true then issue .choose else pure false) :=
    calm_ite (fun _ => calm_issue rfl) fun _ => calm_pure _
  refine .bind (fun goes => ?_) (hgoes W V F hFr)
  have hexec : Calm strict ok i (if goes then issue (.execTool id true) else pure true) :=
    calm_ite (fun _ => calm_issue rfl) fun _ => calm_pure _
  refine .bind (fun _ => ?_) (hexec W V F hFr)
  have hask := Contract.persistent_const (C := handoff ι ok) (mayAsk = true)
  refine duty_ask hFr (fun r _ => (∃ callID req, r = .asks callID req) → mayAsk = true)
    (fun _ => (Contract.persistent_const _).stable i) rfl (fun s r s' _ hm => ?_) fun outcome => ?_
  · rintro ⟨callID, req, rfl⟩
    exact (of_guard hm.2.2.2).1
  cases outcome with
  | completed | completedCancelled | failed => exact .ret fun _ _ hs => ⟨hs.1, hs.2.1⟩
  | asks callID req =>
    refine .pre (fun s _ hs => ⟨hs.1, hs.2.1, hs.2.2 ⟨callID, req, rfl⟩⟩)
      (duty_callID (hF.and hask) hord callID fun newID => ?_)
    refine .bind (fun r => ?_) (duty_recordPendingApproval
      ((frame_of_persistent (hF.and hask)).and (frame_mine newID)) ceiling newID req)
    cases r with
    | error e => exact .ret fun s _ hs => ⟨hs.1, hs.2.1.1.1⟩
    | ok u =>
      refine .pre (fun s _ hs => ⟨hs.1, ⟨hs.2.1.1, hs.2.2 rfl⟩, hs.2.1.2⟩)
        (Outline.bind (fun r => ?_)
          (duty_saveCheckpoint ((hF.and hask).and (persistent_hasRow newID))))
      cases r with
      | error e => exact .ret fun s _ hs => ⟨hs.1, hs.2.1.1⟩
      | ok u => exact .ret fun s _ hs => ⟨hs.1, ⟨hs.2.1.1.1, hs.2.2, hs.2.1.2⟩, hs.2.1.1.2⟩

variable (hres : mayAsk = true → Resumes strict ok i resume)

include hres

variable (ceiling : Int) (beats : Nat)

/-- A claimed run settles its checkpoint. -/
theorem pays_runClaimed (id : String) (verdict : Option Bool) :
    Pays strict ok i (runClaimed ceiling beats id verdict mayAsk resume) := by
  refine pays_easy rfl fun r => ?_
  cases r with
  | error e => exact pays_pure _
  | ok cp =>
    refine pays_easy rfl fun decodes => ?_
    cases decodes with
    | false => exact (routine_annotateFailure id "decode").calm.pays
    | true =>
      refine (pays_heartbeat hord id beats).bind fun _ W V F hF => ?_
      refine .bind (fun e => ?_) (duty_runResumed hord hF ceiling id verdict mayAsk)
      cases e with
      | completed => exact (routine_dropCheckpoint id _).calm.pays W V F hF
      | failed => exact (routine_annotateFailure id "resume").calm.pays W V F hF
      | suspended newID =>
        have hG := (hF.and ((persistent_saved newID i).and (persistent_hasRow newID))).and
          (Contract.persistent_const (mayAsk = true))
        refine duty_ask (frame_of_persistent hG) (fun r _ => strict = true → r ≠ .error .failed)
          (fun _ => (Contract.persistent_const _).stable i) rfl
          (fun s r s' _ hm hstrict => hup hstrict _ _ _ _ hm.2.2.1) fun r => ?_
        -- the consumed checkpoint is gone, or was gone already: look after the new one
        have hgo : Owing strict ok i W (newID :: V) (fun s =>
              (F s ∧ s.saved newID = some i ∧ HasRow newID s) ∧ mayAsk = true)
            (resumeIfAlreadyAnswered resume newID >>= fun _ =>
              (pure (.ok ()) : Call (Except ResumeErr Unit)))
            fun _ => Duty strict i W V F := by
          refine .bind (fun _ => .done) ?_
          cases mayAsk with
          | false => exact .pre (fun s _ hs => absurd hs.2.2 (by simp)) (.absurd _)
          | true =>
            exact duty_forget
              (duty_resumeIfAlreadyAnswered hup (hres rfl) hF)
        match r with
        | .error .failed =>
          refine .ret fun s _ hs => ⟨hs.1.drop_saved fun hstrict => ?_, hs.2.1.1.1⟩
          exact absurd rfl (hs.2.2 hstrict)
        | .error .notFound | .ok () => exact duty_forget hgo

/-- Under a row known to be closed, a resume leaves no unclaimed checkpoint behind. -/
theorem duty_resumeAnswered {P : World ι → Prop} (hF : Lasts ok F) (hP : Lasts ok P) (ceiling : Int)
    (beats : Nat) (id : String) (row : HITLApproval) (verdict : Option Bool)
    (hPF : ∀ s, HandoffInv s → F s → RowClosed id s → claimOf s.checkpoints id ≠ some none → P s) :
    Owing strict ok i W V F (resumeAnswered ceiling beats id row verdict mayAsk resume) fun _ =>
        Duty strict i W V fun s => F s ∧ (strict = true → (∀ s, F s → RowClosed id s) → P s) := by
  have hFr : Frame ok i F := frame_of_persistent hF
  have hPst : Lasts ok fun s =>
      strict = true → (∀ s, F s → RowClosed id s) → P s := hP.imp.imp
  -- a step after which no unclaimed checkpoint is there
  have hget : ∀ s o r s', (handoff ι ok).Move i s o r s' → F s' →
      (strict = true → claimOf s'.checkpoints id ≠ some none) →
      strict = true → (∀ s, F s → RowClosed id s) → P s' :=
    fun s o r s' hm hFs hc hstrict hcl =>
      hPF s' (handoff_preserved (fun i s o r h => (hord i s o r h).1) i s o r s' hm) hFs (hcl s' hFs) (hc hstrict)
  refine .bind (fun finished => ?_) ((routine_missionFinished row).calm W V F hFr)
  cases finished with
  | true =>
    refine duty_ask hFr _ (fun _ => hPst.stable i) rfl (fun s r s' hs hm => ?_) fun r => ?_
    · refine hget s _ r s' hm (hF i s _ r s' hm hs) fun hstrict => ?_
      have hne : r ≠ .error .failed := hup hstrict _ _ _ _ hm.2.2.1
      obtain ⟨rfl, t, ht, rfl⟩ | ⟨hnok, rfl, hnone⟩ := write_map_eq_some hm.2.2.2
      · simp [claimOf_delete ht]
      match r with
      | .error .failed => exact absurd rfl hne
      | .error .notFound =>
        rw [claimOf_delete_none (hnone rfl)]
        simp
      | .ok () => exact absurd rfl hnok
    · match r with
      | .error .failed | .error .notFound | .ok () => exact .done
  | false =>
    refine duty_ask hFr (fun now s => now ≤ s.clock) (fun now => (persistent_clock now).stable i)
      rfl (fun s now s' _ hm => ?_) fun now => ?_
    · obtain ⟨rfl, rfl⟩ := move_now hm
      exact le_rfl
    refine duty_learn (fun _ s => F s ∧ (strict = true → (∀ s, F s → RowClosed id s) → P s))
      (fun _ => (hF.and hPst).stable i) rfl (fun _ _ => by simp) (fun s _ hs => ⟨hs.2, rfl⟩)
      (fun s r s' hs hm => ?_) fun r => ?_
    · have hFs' := hF i s _ r s' hm hs.1
      refine ⟨hFs', hget s _ r s' hm hFs' fun hstrict => ?_⟩
      have hne : r ≠ .error .failed := hup hstrict _ _ _ _ hm.2.2.1
      obtain ⟨rfl, t, ht, rfl⟩ | ⟨hnok, rfl, hnone⟩ := write_map_eq_some hm.2.2.2
      · obtain ⟨-, -, -, hset⟩ := claimOf_claim ht
        simp [hset]
      · match r with
        | .error .failed => exact absurd rfl hne
        | .error .notFound => exact claimOf_claim_none (hnone rfl)
        | .ok () => exact absurd rfl hnok
    · match r with
      | .error .notFound | .error .failed => exact .done
      | .ok () => exact pays_runClaimed hup hord hres ceiling beats id verdict W V _ (hF.and hPst)

/-- A resume answers for the row it was called for. -/
theorem resumes_resumeWith : Resumes strict ok i (resumeWith ceiling beats mayAsk resume) := by
  intro id W V F P hF hP hPF
  refine duty_ask (frame_of_persistent hF) (fun r _ => strict = true → (∀ s, F s → RowClosed id s) →
      ∃ row, r = .ok row ∧ row.state ≠ .pending)
    (fun _ => (Contract.persistent_const _).stable i) rfl (fun s r s' hs hm hstrict hcl => ?_)
    fun r => ?_
  · have hne : r ≠ .error .failed := hup hstrict _ _ _ _ hm.2.2.1
    have hsem : read s (getHITLApproval s.approvals id) r = some s' := hm.2.2.2
    obtain ⟨rfl, hrow, hnone⟩ := read_eq_some hsem
    obtain ⟨row, hg, hst⟩ := hcl _ hs
    match r with
    | .error .failed => exact absurd rfl hne
    | .error .notFound => cases hg.symm.trans (hnone rfl)
    | .ok row' =>
      obtain rfl := Option.some.inj (hg.symm.trans (hrow row' rfl))
      exact ⟨_, rfl, hst⟩
  · -- an answer that a closed row cannot give ends the call, and then nothing is promised
    have hend : ∀ e, (strict = true → (∀ s, F s → RowClosed id s) →
          ∃ row, r = .ok row ∧ row.state ≠ .pending) →
        (∀ row, r = .ok row → row.injected = .error e) ∨ (∃ e', r = .error e') →
        strict = true → ¬ ∀ s, F s → RowClosed id s := by
      rintro e hr hbad hstrict hcl
      obtain ⟨row, hrow, hst⟩ := hr hstrict hcl
      rcases hbad with hinj | ⟨e', he'⟩
      · have := hinj row hrow
        unfold HITLApproval.injected HITLApproval.resumeVerdict at this
        cases hs : row.state <;> simp [hs, Except.map] at this hst
        all_goals split at this <;> simp at this
      · rw [hrow] at he'
        cases he'
    cases r with
    | error e =>
      refine .ret fun s _ hs => ⟨hs.1, hs.2.1, fun hstrict hcl => ?_⟩
      exact absurd hcl (hend .failed hs.2.2 (.inr ⟨e, rfl⟩) hstrict)
    | ok row =>
      cases hinj : row.injected with
      | error e =>
        simp only [hinj]
        refine .ret fun s _ hs => ⟨hs.1, hs.2.1, fun hstrict hcl => ?_⟩
        refine absurd hcl (hend e hs.2.2 (.inl fun row' hr => ?_) hstrict)
        obtain rfl : row = row' := by simpa using hr
        exact hinj
      | ok verdict =>
        simp only [hinj]
        exact duty_forget
          (duty_resumeAnswered hup hord hres hF hP ceiling beats id row verdict hPF)

omit hres

/-- **A resume pays**: by induction on how often the run may suspend again. -/
theorem resumes_resumeFromCheckpoint (again : Nat) :
    Resumes strict ok i (resumeFromCheckpoint ceiling beats again) := by
  induction again with
  | zero => exact resumes_resumeWith hup hord (fun h => absurd h (by simp)) ceiling beats
  | succ again ih => exact resumes_resumeWith hup hord (fun _ => ih) ceiling beats

end Resuming

/-! ## 6. Closing a row -/

variable {v : Verdict}

theorem rowClosed_won {row : HITLApproval} (hst : v.state ≠ .pending)
    (hg : getHITLApproval s.approvals v.id = some row) :
    RowClosed v.id (s.won i v.id (v.apply s.approvals)) :=
  ⟨_, get_won hg, hst⟩

/-- A compare-and-set.  Won: one more row to settle, and `G` is what the thread knows about it.
Lost or failed: nothing has changed. -/
theorem duty_verdict (hF : Frame ok i F) (hov : o.verdict = some v) (hst : v.state ≠ .pending)
    (G : World ι → Prop) (hG : Lasts ok G)
    (hGwon : ∀ s r row, HandoffInv s → F s → ok i s o r →
      getHITLApproval s.approvals v.id = some row → row.state = .pending →
      G (s.won i v.id (v.apply s.approvals)))
    (hwon : ∀ r, o.landed r = true → Owing strict ok i (v.id :: W) V (fun s => F s ∧ RowClosed v.id s ∧ G s) (f r) Q)
    (hlost : ∀ r, o.landed r = false → Owing strict ok i W V F (f r) Q) :
    Owing strict ok i W V F (issue o >>= f) Q := by
  have hparks : o.parks = false := by cases o <;> simp_all [Op.verdict, Op.parks]
  refine .op (fun s _ _ => ?_) fun r => ?_
  · show HandoffGuar i s o
    cases o <;> simp_all [Op.verdict, HandoffGuar]
  cases hl : o.landed r with
  | true =>
    refine ⟨_, duty_stable (hF.stable.and (((persistent_rowClosed v.id).and hG).stable i)),
      fun s s' hp hm => ?_, hwon r hl⟩
    have hFs' : F s' := hF i s o r s' hm (fun _ => hparks) hp.2
    obtain ⟨-, row, hg, hpend, rfl⟩ | ⟨hl', -⟩ := sem_verdict hov hm.2.2.2
    · refine ⟨hp.1.move hm (fun _ h => .inl (List.mem_cons_of_mem _ h)) (fun _ h => h)
        (fun _ v' hv' => ?_) (fun _ id now h => ?_), hFs', rowClosed_won hst hg,
        hGwon s r row hm.1 hp.2 hm.2.2.1 hg hpend⟩
      · cases (hov.symm.trans hv')
        exact .inl List.mem_cons_self
      · rw [h] at hov
        cases hov
    · cases hl.symm.trans hl'
  | false =>
    refine ⟨_, duty_stable hF.stable, fun s s' hp hm => ?_, hlost r hl⟩
    obtain ⟨hl', -⟩ | ⟨-, rfl⟩ := sem_verdict hov hm.2.2.2
    · cases hl.symm.trans hl'
    · exact hp

/-- A service as thread `i` uses it: its hook resumes, and it has one if the party has. -/
structure Hooked (strict : Bool) (ok : StepCond ι) (calls : ι → Party)
    (i : ι) (svc : Service) : Prop where
  resumes : ∀ hook, svc.hook = some hook → Resumes strict ok i hook
  absent : svc.hook = none → (calls i).hasHook = false

/-- What the closer of somebody else's row knows about it before it delivers. -/
def Deliverable (strict : Bool) (calls : ι → Party) (i : ι) (id : String) (s : World ι) : Prop :=
  strict = true → (calls i).hasHook = false → Settled id s

section Closing

variable {calls : ι → Party}

theorem persistent_deliverable (id : String) : Lasts ok (Deliverable strict calls i id) :=
  (persistent_settled id).imp.imp

/-- A program that delivers the answer of the row `id`, which its thread has just closed. -/
def Delivers (strict : Bool) (ok : StepCond ι) (calls : ι → Party) (i : ι)
    (id : String) (p : Call α) : Prop :=
  ∀ (W V : List String) (F : World ι → Prop), Lasts ok F →
    Owing strict ok i (id :: W) V
      (fun s => F s ∧ RowClosed id s ∧ Deliverable strict calls i id s) p
      fun _ => Duty strict i W V F

theorem Delivers.bind {p : Call α} {f : α → Call β} (hp : Delivers strict ok calls i id p)
    (hf : ∀ a, Pays strict ok i (f a)) : Delivers strict ok calls i id (p >>= f) :=
  fun W V F hF => Outline.bind (fun a => hf a W V F hF) (hp W V F hF)

/-- **The closer's debt is paid by the delivery.**  A waiter is registered: the run has not
saved anything yet, so it will find the row closed.  No waiter, and a hook: the hook resumes.
No hook: then the row had not been seen pending when it was closed. -/
theorem delivers_deliver (hh : Hooked strict ok calls i svc) (id : String) (ans : Answer) :
    Delivers strict ok calls i id (deliver svc id ans true) := by
  intro W V F hF
  have hD : Lasts ok (Deliverable strict calls i id) := persistent_deliverable id
  have hK := hF.and ((persistent_rowClosed id).and hD)
  refine duty_ask (frame_of_persistent hK)
    (fun r s => (∃ ch, r = some ch) → Settled id s) (fun r => (persistent_settled id).imp.stable i)
    rfl (fun s r s' hs hm => ?_) fun r => ?_
  · rintro ⟨ch, rfl⟩
    obtain ⟨hreg, rfl⟩ := of_guard hm.2.2.2
    refine .inr ⟨hs.2.1, ?_⟩
    by_contra hre
    have hsaved := hm.1.rechecked_saved id (by simpa using hre)
    cases hreg.trans (hm.1.saved_alone svc.proc id hsaved)
  · cases r with
    | some ch =>
      refine duty_easy ?_ rfl fun _ => .ret fun s _ hs => ?_
      · exact frame_of_persistent (hK.and (persistent_settled id).imp)
      · exact ⟨hs.1.drop_won fun _ => hs.2.2 ⟨ch, rfl⟩, hs.2.1.1⟩
    | none =>
      cases hhook : svc.hook with
      | none =>
        refine .ret fun s _ hs => ⟨hs.1.drop_won fun hstrict => ?_, hs.2.1.1⟩
        exact hs.2.1.2.2 hstrict (hh.absent hhook)
      | some hook =>
        have hrun := hh.resumes hook hhook id (id :: W) V _ (Settled id) hK
          (persistent_settled id) fun s hI hs hcl hc => by
            by_cases hsaved : s.saved id = none
            · refine .inr ⟨hcl, ?_⟩
              by_contra hre
              exact hI.rechecked_saved id (by simpa using hre) hsaved
            · exact .inl ⟨hsaved, hc⟩
        refine duty_forget (Outline.bind (fun r => .pre (fun s _ hs => show Duty strict i W V F s from
          ⟨hs.1.drop_won fun hstrict => hs.2.2 hstrict fun _ h => h.2.1, hs.2.1.1⟩) ?_) hrun)
        rcases r with e | u
        · cases e <;> exact .done
        · exact .done

variable (hclose : strict = true → ∀ s o r, ok i s o r → HookCloses calls i s o)

include hclose

variable {Q : α → World ι → Prop} {res : ApprovalResolution} {st : HITLApprovalState}

/-- A compare-and-set on somebody's row, followed by the delivery if it is won. -/
theorem pays_close (hov : o.verdict = some v) (hst : v.state ≠ .pending)
    (hwon : ∀ r, o.landed r = true → Delivers strict ok calls i v.id (f r))
    (hlost : ∀ r, o.landed r = false → Pays strict ok i (f r)) :
    Pays strict ok i (issue o >>= f) := by
  intro W V F hF
  refine duty_verdict (frame_of_persistent hF) hov hst _ (persistent_deliverable v.id)
    (fun s r row hI _ hok hg hp hstrict hno => .inr ⟨rowClosed_won hst hg, ?_⟩)
    (fun r hr => hwon r hr W V F hF) fun r hr => hlost r hr W V F hF
  by_contra hre
  have hhook := hclose hstrict s o r hok v row hov hg hp (by simpa [World.won] using hre)
  cases hhook.symm.trans hno

variable {at_ : Time} {f : Except SqlErr Unit → Call α} (hst : st ≠ .pending)
  (hwon : Delivers strict ok calls i id (f (.ok ())))
  (hfailed : Pays strict ok i (f (.error .failed)))
  (hgone : Pays strict ok i (f (.error .notFound)))

include hst hwon hfailed hgone

/-- Who closes a row hands its run over. -/
theorem pays_resolve {inl : Bool} :
    Pays strict ok i (issue (.resolveHITLApproval inl id st res at_) >>= f) := by
  refine pays_close hclose rfl hst (fun r hr => ?_) (fun r hr => ?_)
  · rcases r with e | u
    · cases hr
    · exact hwon
  · rcases r with (_ | _) | u
    · exact hgone
    · exact hfailed
    · cases hr

theorem pays_resolveWithinBound {b : AgentAnswerBound} :
    Pays strict ok i (issue (.resolveHITLApprovalWithinBound id b st res at_) >>= f) := by
  refine pays_close hclose rfl hst (fun r hr => ?_) (fun r hr => ?_)
  · rcases r with e | u
    · cases hr
    · exact hwon
  · rcases r with (_ | _) | u
    · exact hgone
    · exact hfailed
    · cases hr

omit hst hwon hfailed hgone

variable (hh : Hooked strict ok calls i svc)

include hh

theorem pays_recordVerdict (id : String) (approved : Bool) (res : ApprovalResolution) :
    Pays strict ok i (recordVerdict svc id approved res true) := by
  refine pays_easy rfl fun now => ?_
  refine pays_resolve hclose (by cases approved <;> simp [verdictState])
    (delivers_deliver hh id _) ?_ ?_
  · exact pays_pure _
  · exact (routine_tellLoser id _ _).calm.pays

theorem pays_resolveRecorded (id : String) (approved : Bool) (res : ApprovalResolution) :
    Pays strict ok i (resolveRecorded svc id approved res true) := by
  refine (routine_requireResumer _ id).calm.pays.bind fun refused => ?_
  cases refused with
  | true => exact pays_pure _
  | false => exact pays_recordVerdict hclose hh id approved res

theorem pays_respondAsAgentBounded (id agentName : String) (approved : Bool) (guidance : String)
    (max : Int) :
    Pays strict ok i (respondAsAgentBounded svc id agentName approved guidance max) := by
  refine pays_easy rfl fun r => ?_
  match r with
  | .error .notFound | .error .failed => exact pays_pure _
  | .ok row =>
    simp only
    split
    · exact pays_pure _
    split
    · exact pays_pure _
    refine (routine_requireResumer _ id).calm.pays.bind fun refused => ?_
    cases refused with
    | true => exact pays_pure _
    | false =>
      refine pays_easy rfl fun now => ?_
      refine pays_resolveWithinBound hclose (by cases approved <;> simp [verdictState])
        (delivers_deliver hh id _) ?_ ?_
      · exact pays_pure _
      · exact (routine_tellLoser id _ _).calm.pays

theorem pays_answerAttention (id text by_ : String) (byAgent : Bool) (bound : Option Int) :
    Pays strict ok i (answerAttention svc id text by_ byAgent bound) := by
  unfold answerAttention
  split
  · exact pays_pure _
  refine pays_easy rfl fun r => ?_
  match r with
  | .error .notFound | .error .failed => exact pays_pure _
  | .ok row =>
    simp only
    split
    · exact pays_pure _
    refine (routine_requireResumer _ id).calm.pays.bind fun refused => ?_
    cases refused with
    | true => exact pays_pure _
    | false =>
      refine pays_easy rfl fun now => ?_
      cases bound with
      | none =>
        refine pays_resolve hclose (by simp) (delivers_deliver hh id _) ?_ ?_
        · exact pays_pure _
        · exact (routine_tellLoser id _ _).calm.pays
      | some max =>
        simp only
        split
        · exact pays_pure _
        refine pays_resolveWithinBound hclose (by simp) (delivers_deliver hh id _) ?_ ?_
        · exact pays_pure _
        · exact (routine_tellLoser id _ _).calm.pays

/-- The expiry sweep settles each row before it goes on to the next. -/
theorem pays_closeRows (now : Time) (outcome : HITLApproval → Bool) (rows : List HITLApproval)
    (closed : List String) :
    Pays strict ok i (closeRows svc now .expired outcome true rows closed) := by
  induction rows generalizing closed with
  | nil => exact pays_pure _
  | cons row rows ih =>
    refine pays_resolve hclose (by simp) ((delivers_deliver hh row.id _).bind fun _ => ih _) ?_ ?_
    · exact pays_pure _
    · exact ih closed

theorem pays_sweepExpired : Pays strict ok i (sweepExpired svc) := by
  refine pays_easy rfl fun now => pays_easy rfl fun r => ?_
  cases r with
  | error e => exact pays_pure _
  | ok rows => exact pays_closeRows hclose hh now _ rows []

end Closing

/-! ## 7. Runs that suspend -/

section

/-- A run that closes its own row has saved nothing under it, so nothing is owed. -/
theorem duty_closeRowInline (hF : Frame ok i F) (hsaved : ∀ s, F s → s.saved id = none)
    (durable approved : Bool) :
    Owing strict ok i W V F (closeRowInline svc id durable approved)
      fun _ => Duty strict i W V F := by
  cases durable with
  | false => exact .done
  | true =>
    refine .bind (fun _ => .done) ?_
    refine duty_easy hF rfl fun now => ?_
    refine duty_verdict hF rfl
      (by cases approved <;> simp [verdictState]) (Settled id) (persistent_settled id)
      (fun s r row hI hs _ hg _ => .inr ⟨rowClosed_won (by cases approved <;> simp [verdictState]) hg,
        ?_⟩) (fun r hr => ?_) (fun r hr => ?_)
    · by_contra hre
      exact hI.rechecked_saved id (by simpa [World.won] using hre) (hsaved s hs)
    · rcases r with e | u
      · cases hr
      have hframe : Frame ok i fun s => F s ∧ RowClosed id s ∧ Settled id s :=
        hF.and (frame_of_persistent ((persistent_rowClosed id).and (persistent_settled id)))
      refine .post (fun _ s _ hs => ?_) (calm_deliver_noHook id _ (id :: W) V _ hframe)
      exact ⟨hs.1.drop_won fun _ => hs.2.2.2, hs.2.1⟩
    · rcases r with e | u
      · cases e with
        | failed => exact .done
        | notFound => exact (routine_tellLoser id _ _).calm W V F hF
      · cases hr

/-- What the gate lets go of unanswered is the call it was asked to hold. -/
theorem duty_holdGate (hF : Frame ok i F) (hsaved : ∀ s, F s → s.saved id = none) (durable : Bool)
    (waiter : Option ChanId) (req : ApprovalRequest) (suspendable : Bool) (fuel : Nat) :
    Owing strict ok i W V F (holdGate svc id durable waiter req suspendable fuel)
      fun r s => Duty strict i W V F s ∧
        ∀ ask, r.outcome = .pending ask → ask = id ∧ durable = true := by
  have hafter : ∀ approved, Owing strict ok i W V F
      (afterVerdict svc id durable approved) fun r s => Duty strict i W V F s ∧
        ∀ ask, r.outcome = .pending ask → ask = id ∧ durable = true := by
    intro approved
    refine .bind (fun closed => ?_) (duty_closeRowInline hF hsaved durable approved)
    cases approved with
    | true => exact duty_easy hF rfl fun _ => .ret fun _ _ hs => ⟨hs, by simp⟩
    | false =>
      cases durable with
      | true => exact duty_easy hF rfl fun _ => .ret fun _ _ hs => ⟨hs, by simp⟩
      | false => exact .ret fun _ _ hs => ⟨hs, by simp⟩
  refine .bind (fun waited => ?_)
    ((routine_waitForVerdict id durable waiter _ req.onTimeout fuel true).calm W V F hF)
  cases waited with
  | answered approved | onTimeout approved => exact hafter approved
  | leaving =>
    simp only
    split
    · refine .ret fun _ _ hs => ⟨hs, fun ask hask => ?_⟩
      exact ⟨by simpa using hask.symm, by simp_all⟩
    · exact .ret fun _ _ hs => ⟨hs, by simp⟩
  | unaskable => exact .ret fun _ _ hs => ⟨hs, by simp⟩

/-- What a call that ends unanswered leaves: its row, and an id under which nothing is saved
and nobody waits. -/
def LeftPending (i : ι) (id : String) (s : World ι) : Prop := Mine i id s ∧ HasRow id s

/-- `gateOnApproval` on an id of one's own. -/
theorem duty_gateOnApproval (hF : Lasts ok F) (toolCallID : String)
    (req : ApprovalRequest) (detached suspendable : Bool) (fuel : Nat) :
    Owing strict ok i W V (fun s => F s ∧ Mine i toolCallID s)
      (gateOnApproval svc toolCallID req detached suspendable fuel)
      fun r => Duty strict i W V fun s =>
        F s ∧ ∀ ask, r.outcome = .pending ask → LeftPending i ask s := by
  refine .bind (fun id => ?_) (duty_ownID hF toolCallID)
  -- a call that detaches parks no waiter
  have hpark : ∀ waiter : Option ChanId, Lasts ok fun s =>
      F s ∧ ((detached && suspendable) = true → waiter = none) :=
    fun _ => hF.and (Contract.persistent_const _)
  refine .bind (R := fun waiter => Duty strict i W V fun s =>
    (F s ∧ ((detached && suspendable) = true → waiter = none)) ∧ Held i id svc.proc waiter s)
    (fun waiter => ?_) ?_
  · refine .bind (fun r => ?_) (duty_recordPendingApproval
      ((frame_of_persistent (hpark waiter)).and (frame_held id svc.proc waiter)) svc.ceiling id req)
    cases r with
    | error e =>
      -- no row: the call is held on a card, and is never left pending
      refine duty_forget
        (Outline.bind (fun _ => ?_) (duty_releaseParked (hpark waiter)))
      refine .post (fun r s _ hs => ⟨hs.1.1, hs.1.2.1.1, fun ask hask => ?_⟩)
        (duty_holdGate ((frame_of_persistent (hpark waiter)).and (frame_mine id))
          (fun s hs => hs.2.2.1) false none req suspendable fuel)
      exact absurd (hs.2 ask hask).2 (by simp)
    | ok u =>
      have hG := (hpark waiter).and (persistent_hasRow id)
      refine .pre (fun s _ hs =>
        show Duty strict i W V (fun s => ((F s ∧ ((detached && suspendable) = true →
          waiter = none)) ∧ HasRow id s) ∧ Held i id svc.proc waiter s) s from
          ⟨hs.1, ⟨hs.2.1.1, hs.2.2 rfl⟩, hs.2.1.2⟩) ?_
      simp only
      split
      · rename_i hdetach
        refine .ret fun s _ hs => ⟨hs.1, hs.2.1.1.1, fun ask hask => ?_⟩
        obtain rfl : id = ask := by simpa using hask
        obtain rfl := hs.2.1.1.2 hdetach
        exact ⟨held_none.mp hs.2.2, hs.2.1.2⟩
      · refine .bind (R := fun r s => Duty strict i W V (fun s => ((F s ∧
            ((detached && suspendable) = true → waiter = none)) ∧ HasRow id s) ∧
              Held i id svc.proc waiter s) s ∧
            ∀ ask, r.outcome = .pending ask → ask = id ∧ true = true)
          (fun r => ?_) (duty_holdGate ((frame_of_persistent hG).and (frame_held id svc.proc waiter))
            (fun s hs => hs.2.2.1) true waiter req suspendable fuel)
        refine .pre (fun s _ hs =>
          show Duty strict i W V (fun s => (((F s ∧ ((detached && suspendable) = true →
            waiter = none)) ∧ HasRow id s) ∧ ∀ ask, r.outcome = .pending ask → ask = id) ∧
              Held i id svc.proc waiter s) s from
            ⟨hs.1.1, ⟨hs.1.2.1, fun ask hask => (hs.2 ask hask).1⟩, hs.1.2.2⟩) ?_
        refine .bind (fun _ => ?_) (duty_releaseParked (hG.and (Contract.persistent_const _)))
        refine .ret fun s _ hs => ⟨hs.1, hs.2.1.1.1.1, fun ask hask => ?_⟩
        obtain rfl := hs.2.1.2 ask hask
        exact ⟨hs.2.2, hs.2.1.1.2⟩
  · split
    · exact .ret fun s _ hs => ⟨hs.1, ⟨hs.2.1, fun _ => rfl⟩, held_none.mpr hs.2.2⟩
    rename_i hno
    refine duty_register hF fun ch => .ret fun s _ hs => ⟨hs.1, ⟨hs.2.1, fun h => ?_⟩, hs.2.2⟩
    simp [h] at hno

/-- A question left pending is the one that was asked. -/
theorem duty_awaitAttention (hF : Frame ok i F) (id : String) (ch : ChanId)
    (resumable noDeadline : Bool) (fuel : Nat) :
    Owing strict ok i W V F (awaitAttention id ch resumable noDeadline fuel)
      fun r s => Duty strict i W V F s ∧ ∀ ask, r = .pending ask → ask = id := by
  induction fuel with
  | zero => exact duty_easy hF rfl nofun
  | succ fuel ih =>
    refine duty_easy hF rfl fun ev => ?_
    match ev with
    | .waiter a => exact .ret fun _ _ hs => ⟨hs, fun ask => by dsimp only; split <;> simp⟩
    | .poll =>
      refine duty_easy hF rfl fun r => ?_
      cases r with
      | error e => exact ih
      | ok row =>
        refine .ite (fun _ => ih) fun _ => .ret fun _ _ hs => ⟨hs, fun ask => ?_⟩
        dsimp only
        split <;> simp
    | .done cancelled =>
      -- only a resumable question whose wait was cancelled is left pending
      refine .ret fun _ _ hs => ⟨hs, fun ask => ?_⟩
      cases cancelled <;> cases resumable <;> simp [eq_comm]
    | .card _ | .cardError _ => exact ih

/-- `RequestAttention` under an id of one's own. -/
theorem duty_requestAttention (hF : Lasts ok F) (req : AttentionRequest) (fuel : Nat) :
    Owing strict ok i W V (fun s => F s ∧ Mine i req.askID s) (requestAttention svc req fuel)
      fun r => Duty strict i W V fun s =>
        F s ∧ ∀ ask, r = .pending ask → LeftPending i ask s := by
  have hFr : Frame ok i F := frame_of_persistent hF
  unfold requestAttention
  split
  · exact .ret fun s _ hs => ⟨hs.1, hs.2.1, by simp⟩
  refine .bind (fun id => ?_) (duty_ownID hF req.askID)
  refine duty_easy (hFr.and (frame_mine id)) rfl fun now => ?_
  refine duty_ask (hFr.and (frame_mine id)) (fun r s => r = .ok () → HasRow id s)
    (fun r => (persistent_hasRow id).imp.stable i) rfl (fun s r s' _ hm => ?_) fun r => ?_
  · rintro rfl
    obtain ⟨t, ht, rfl⟩ := Option.map_eq_some_iff.mp hm.2.2.2
    obtain ⟨-, hget⟩ := Lib.Table.insert_eq_some ht
    exact ⟨_, by simp [getHITLApproval, hget, attentionRow]; rfl⟩
  cases r with
  | error e => exact .ret fun s _ hs => ⟨hs.1, hs.2.1.1, by simp⟩
  | ok u =>
    have hG := hF.and (persistent_hasRow id)
    refine .pre (fun s _ hs => ⟨hs.1, ⟨hs.2.1.1, hs.2.2 rfl⟩, hs.2.1.2⟩)
      (duty_register hG fun ch => ?_)
    refine .bind (R := fun r s => Duty strict i W V (fun s =>
      (F s ∧ HasRow id s) ∧ Held i id svc.proc (some ch) s) s ∧ ∀ ask, r = .pending ask → ask = id)
      (fun r => ?_) ?_
    · refine .pre (fun s _ hs =>
        show Duty strict i W V (fun s => ((F s ∧ HasRow id s) ∧ ∀ ask, r = .pending ask →
          ask = id) ∧ Held i id svc.proc (some ch) s) s from
          ⟨hs.1.1, ⟨hs.1.2.1, hs.2⟩, hs.1.2.2⟩) ?_
      refine duty_deletePending (hG.and (Contract.persistent_const _))
        (.ret fun s _ hs => ⟨hs.1, hs.2.1.1.1, fun ask hask => ?_⟩)
      obtain rfl := hs.2.1.2 ask hask
      exact ⟨hs.2.2, hs.2.1.1.2⟩
    · split
      · exact .ret fun s _ hs => ⟨hs, fun ask h => by simpa using h.symm⟩
      · exact duty_awaitAttention
          ((frame_of_persistent hG).and (frame_held id svc.proc (some ch))) id ch _ _ fuel

variable (hup : strict = true → ∀ i s o r, ok i s o r → ResumePathUp o r)
  (hres : Resumes strict ok i resume)

include hup hres

/-- Save and look again: a call left pending owes nothing afterwards. -/
theorem duty_suspendRun (hF : Lasts ok F) (id : String) (a : α) :
    Owing strict ok i W V (fun s => F s ∧ LeftPending i id s)
      (suspendRun resume id a) fun _ => Duty strict i W V F := by
  refine .pre (fun s _ hs => ⟨hs.1, ⟨hs.2.1, hs.2.2.2⟩, hs.2.2.1⟩)
    (Outline.bind (fun r => ?_) (duty_saveCheckpoint (hF.and (persistent_hasRow id))))
  cases r with
  | error e => exact .ret fun s _ hs => ⟨hs.1, hs.2.1⟩
  | ok u =>
    refine .pre (fun s _ hs => ⟨hs.1, hs.2.1.1, hs.2.2, hs.2.1.2⟩)
      (Outline.bind (fun _ => .done) (duty_resumeIfAlreadyAnswered hup hres hF))

variable (hord : ∀ i s o r, ok i s o r → Orderly i s o r)

include hord in
/-- A turn that suspends saves first and looks again. -/
theorem pays_promptRun (callID : String) (req : ApprovalRequest) (detached : Bool)
    (fuel : Nat) : Pays strict ok i (promptRun svc resume callID req detached fuel) := by
  intro W V F hF
  refine duty_callID hF hord callID fun id => Outline.bind (fun r => ?_)
    (duty_gateOnApproval hF id req detached true fuel)
  cases hout : r.outcome with
  | pending ask =>
    exact .pre (fun s _ hs => ⟨hs.1, hs.2.1, hs.2.2 ask rfl⟩) (duty_suspendRun hup hres hF ask r)
  | executed _ | denied | failed => exact .ret fun s _ hs => ⟨hs.1, hs.2.1⟩

include hord in
theorem pays_attentionRun (callID summary missionID : String) (detached : Bool) (fuel : Nat) :
    Pays strict ok i (attentionRun svc resume callID summary missionID detached fuel) := by
  intro W V F hF
  refine duty_callID hF hord callID fun id => Outline.bind (fun r => ?_)
    (duty_requestAttention hF ⟨summary, missionID, id, detached⟩ fuel)
  cases r with
  | pending ask =>
    exact .pre (fun s _ hs => ⟨hs.1, hs.2.1, hs.2.2 ask rfl⟩) (duty_suspendRun hup hres hF ask _)
  | text _ | unanswered | failed => exact .ret fun s _ hs => ⟨hs.1, hs.2.1⟩

omit hup in
theorem pays_resumeEach (ids : List String) : Pays strict ok i (resumeEach resume ids) := by
  induction ids with
  | nil => exact pays_pure _
  | cons id ids ih =>
    intro W V F hF
    refine .bind (fun _ => ?_) (hres id W V F (fun _ => True) hF
      (Contract.persistent_const True) fun _ _ _ _ _ => trivial)
    exact duty_forget (ih W V F hF)

omit hup in
theorem pays_sweepStranded (limit : Nat) :
    Pays strict ok i (sweepStrandedCheckpoints resume limit) := by
  refine pays_easy rfl fun cursor => pays_easy rfl fun r => ?_
  cases r with
  | error e => exact pays_pure _
  | ok cps =>
    refine pays_easy rfl fun now => ?_
    exact (routine_strandedAmong now cps []).calm.pays.bind fun ids => pays_resumeEach hres ids

end

/-! ## 8. The parties of a handover -/

/-- Those who record an ask and suspend under it, answer it, let it expire, or resume it. -/
def Party.handsOver : Party → Bool
  | .respond _ _ _ => true
  | .respondWithGuidance _ _ _ _ _ => true
  | .respondAsAgentBounded _ _ _ _ _ _ => true
  | .answer _ _ _ _ _ _ => true
  | .sweepExpired _ => true
  | .run _ _ _ _ _ => true
  | .attentionRun _ _ _ _ _ _ => true
  | .sweepStranded _ _ => true
  | .clock _ => true
  | _ => false

theorem hooked_service (hord : ∀ i s o r, ok i s o r → Orderly i s o r)
    (hup : strict = true → ∀ i s o r, ok i s o r → ResumePathUp o r) (h : Host)
    (hhas : (calls i).hasHook = h.hasHook) : Hooked strict ok calls i h.service := by
  refine ⟨fun hook hhook => ?_, fun hnone => ?_⟩
  · rw [h.hook_service hhook]
    exact resumes_resumeFromCheckpoint hup hord h.ceiling h.beats h.again
  · cases hb : h.hasHook <;> simp_all [Host.service]

/-- **Every party of a handover pays its debts before it returns.** -/
theorem pays_party (hord : ∀ i s o r, ok i s o r → Orderly i s o r)
    (hsafe : strict = true → ∀ i s o r, ok i s o r → SafeHandover calls i s o r)
    (hparty : (calls i).handsOver = true) : Pays strict ok i (calls i).prog := by
  have hup : strict = true → ∀ i s o r, ok i s o r → ResumePathUp o r :=
    fun hstrict i s o r h => (hsafe hstrict i s o r h).2.1
  have hclose : strict = true → ∀ s o r, ok i s o r → HookCloses calls i s o :=
    fun hstrict s o r h => (hsafe hstrict i s o r h).2.2
  have hres : ∀ h : Host, Resumes strict ok i h.resume := fun h =>
    resumes_resumeFromCheckpoint hup hord h.ceiling h.beats h.again
  have hhook : ∀ h : Host, (calls i).hasHook = h.hasHook → Hooked strict ok calls i h.service :=
    hooked_service hord hup
  -- each party's program is its call, and then its reply
  have hreply : ∀ {α : Type} {p : Call α} (reply : α → Reply), Pays strict ok i p →
      Pays strict ok i (p >>= fun a => (pure (reply a) : Call Reply)) :=
    fun reply hp => hp.bind fun _ => pays_pure _
  cases hc : calls i with
  | respond h id approved | respondWithGuidance h id approved decidedBy guidance =>
    have hh := hhook h (by rw [hc]; rfl)
    exact hreply _ (pays_resolveRecorded hclose hh id approved _)
  | respondAsAgentBounded h id agentName approved guidance max =>
    have hh := hhook h (by rw [hc]; rfl)
    exact hreply _ (pays_respondAsAgentBounded hclose hh id agentName approved guidance max)
  | answer h id text by_ byAgent bound =>
    have hh := hhook h (by rw [hc]; rfl)
    exact hreply _ (pays_answerAttention hclose hh id text by_ byAgent bound)
  | sweepExpired h =>
    have hh := hhook h (by rw [hc]; rfl)
    exact hreply _ (pays_sweepExpired hclose hh)
  | run h callID req detached fuel =>
    exact hreply _ (pays_promptRun hup (hres h) hord callID req detached fuel)
  | attentionRun h callID summary missionID detached fuel =>
    exact hreply _ (pays_attentionRun hup (hres h) hord callID summary missionID detached fuel)
  | sweepStranded h limit => exact hreply _ (pays_sweepStranded (hres h) limit)
  | clock ticks => exact hreply _ (routine_tick ticks).calm.pays
  | abandonMissionAsks _ _ | requestApproval _ _ _ _ | requestAttention _ _ _
  | gate h toolCallID req detached suspendable fuel =>
    exact absurd hparty (by simp [hc, Party.handsOver])

end Contenox.Approvals
