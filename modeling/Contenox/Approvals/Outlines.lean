/-
# Outlines of the approval programs

What a thread knows while it runs one of the programs is always of one shape, `Knows i W F`:
`W` are exactly the rows it has closed so far, and `F` is a fact that nobody can destroy.  So
each program gets one lemma: from `Knows i W F` it ends in `Knows i W' F`, where `W'` adds
the rows its REPLY says it closed.  `F` is a frame: whatever the caller knew, it still knows.

The rules of section 1 are the library's rules at this shape.  Only three operations need
an argument: a compare-and-set (which may add to `W`, and after which the row's answer is
known), a wake-up (which must carry the recorded answer), and the run of a gated tool.
-/
import Contenox.Approvals.Contract
import Contenox.Approvals.Walks

namespace Contenox.Approvals

open Lib (Prog Contract)
open Lib.Contract (Outline)

variable {id : String} {res : ApprovalResolution} {svc : Service}

variable {ι α β : Type} [DecidableEq ι] {strict : Bool} {ok : StepCond ι} {i : ι} {W : List String}
  {F : World ι → Prop} {s : World ι} {o : Op}

/-! ## 1. What a thread knows, and the rules for it -/

/-- `W` are exactly the rows thread `i` has closed. -/
def Won (i : ι) (W : List String) (s : World ι) : Prop := ∀ id, s.winner id = some i ↔ id ∈ W

/-- The knowledge of a thread. -/
def Knows (i : ι) (W : List String) (F : World ι → Prop) (s : World ι) : Prop := Won i W s ∧ F s

/-- A thread that knows as much runs `p` to an end with `Q`. -/
abbrev Knowing (strict : Bool) (ok : StepCond ι) (i : ι) (W : List String)
    (F : World ι → Prop) (p : Call α) (Q : α → World ι → Prop) : Prop :=
  (contract ι strict ok).Outline i (Knows i W F) p Q

/-- **Nobody else can add to or take from the rows a thread has closed**: a row that another
thread closes was pending, so it had no winner. -/
theorem won_stable : (contract ι strict ok).Stable i (Won i W) := by
  intro j s o r s' hj hm hw
  have hwin := hm.1.winner
  have hch := Move.change hm
  cases hch with
  | resolve _ v row _ hg hp =>
    intro id
    by_cases hid : id = v.id
    · subst hid
      have hnone : ¬ ∃ k, s.winner v.id = some k := by
        rw [hwin v.id]
        rintro ⟨row', hg', hp'⟩
        cases (hg.symm.trans hg')
        exact hp' hp
      have hnot : v.id ∉ W := fun hmem => hnone ⟨i, (hw v.id).mpr hmem⟩
      simp [World.won, hnot, hj]
    · simpa [World.won, hid] using hw id
  | _ => exact hw

/-- A thread's own step adds to its rows only by a compare-and-set. -/
theorem won_own {s' : World ι} {r : o.Res} (hm : (contract ι strict ok).Move i s o r s')
    (hv : o.verdict = none) (hw : Won i W s) : Won i W s' := by
  have hch := Move.change hm
  cases hch with
  | resolve _ v row hov _ _ => cases hov.symm.trans hv
  | _ => exact hw

variable (hF : Lasting strict ok F) {Q : α → World ι → Prop} {f : Except SqlErr Unit → Call α}
  {st : HITLApprovalState}

include hF in
theorem knows_stable : (contract ι strict ok).Stable i (Knows i W F) :=
  won_stable.and (hF.stable i)

omit [DecidableEq ι] in
/-- Knowing less. -/
theorem Knows.mono {F' : World ι → Prop} (h : ∀ s, F s → F' s)
    (hk : Knows i W F s) : Knows i W F' s :=
  ⟨hk.1, h s hk.2⟩

/-- An operation after which the thread knows `F' r`; it is not a compare-and-set. -/
theorem outline_learn {f : o.Res → Call α} (F' : o.Res → World ι → Prop)
    (hF' : ∀ r, Lasting strict ok (F' r)) (hv : o.verdict = none)
    (hg : ∀ s, Inv strict s → F s → Guar strict i s o)
    (hl : ∀ s r s', F s → (contract ι strict ok).Move i s o r s' → F' r s')
    (hk : ∀ r, Knowing strict ok i W (F' r) (f r) Q) : Knowing strict ok i W F (issue o >>= f) Q :=
  Outline.learn _ (fun s hs hp => hg s hs hp.2) (fun r => knows_stable (hF' r))
    (fun s r s' hp hm => ⟨won_own hm hv hp.1, hl s r s' hp.2 hm⟩) hk

/-- The operations the guarantee says nothing about. -/
def Op.plain : Op → Bool
  | .resolveHITLApproval _ _ _ _ _ => false
  | .resolveHITLApprovalWithinBound _ _ _ _ _ => false
  | .createHITLApproval _ => false
  | .wake _ _ => false
  | .execTool _ durable => !durable
  | _ => true

theorem verdict_eq_none_of_plain (h : o.plain = true) : o.verdict = none := by
  cases o <;> simp_all [Op.plain, Op.verdict]

omit [DecidableEq ι] in
theorem guar_of_plain (h : o.plain = true) (s : World ι) : Guar strict i s o := by
  refine ⟨fun v hv => ?_, fun a ha => ?_, fun ch a ha => ?_, fun _ id ha => ?_⟩
  · cases hv.symm.trans (verdict_eq_none_of_plain h)
  all_goals
    subst ha
    cases h

include hF

/-- A plain operation, with what its result tells. -/
theorem outline_ask {f : o.Res → Call α} (ψ : o.Res → World ι → Prop)
    (hψ : ∀ r, Lasting strict ok (ψ r)) (hp : o.plain = true)
    (hl : ∀ s r s', (contract ι strict ok).Move i s o r s' → ψ r s')
    (hk : ∀ r, Knowing strict ok i W (fun s => F s ∧ ψ r s) (f r) Q) :
    Knowing strict ok i W F (issue o >>= f) Q :=
  outline_learn _ (fun r => hF.and (hψ r)) (verdict_eq_none_of_plain hp)
    (fun s _ _ => guar_of_plain hp s)
    (fun s r s' hs hm => ⟨hF i s o r s' hm hs, hl s r s' hm⟩) hk

/-- A plain operation whose result is of no consequence. -/
theorem outline_plain {f : o.Res → Call α} (hp : o.plain = true)
    (hk : ∀ r, Knowing strict ok i W F (f r) Q) : Knowing strict ok i W F (issue o >>= f) Q :=
  outline_learn _ (fun _ => hF) (verdict_eq_none_of_plain hp)
    (fun s _ _ => guar_of_plain hp s) (fun s r s' hs hm => hF i s o r s' hm hs) hk

/-- An INSERT of a pending row that does not let an unanswered ask through. -/
theorem outline_create {a : HITLApproval} (ha : a.state = .pending ∧ a.onTimeout ≠ some .allow)
    (hk : ∀ r, Knowing strict ok i W F (f r) Q) :
    Knowing strict ok i W F (issue (.createHITLApproval a) >>= f) Q := by
  refine outline_learn _ (fun _ => hF) rfl (fun s _ _ => ?_)
    (fun s r s' hs hm => hF i s _ r s' hm hs) hk
  refine ⟨nofun, fun a' ha' => ?_, nofun, nofun⟩
  cases ha'
  exact ha

/-- The run of a gated tool. -/
theorem outline_exec {durable : Bool} {f : Bool → Call α}
    (happ : strict = true → durable = true → ∀ s, F s → Approved id s)
    (hk : ∀ r, Knowing strict ok i W F (f r) Q) :
    Knowing strict ok i W F (issue (.execTool id durable) >>= f) Q := by
  refine outline_learn _ (fun _ => hF) rfl (fun s _ hs => ?_)
    (fun s r s' hs hm => hF i s _ r s' hm hs) hk
  refine ⟨nofun, fun a ha => absurd ha (by simp), nofun, fun hstr id' hid => ?_⟩
  cases hid
  exact happ hstr rfl s hs

/-- A wake-up that carries the recorded answer, to a channel registered for that ask. -/
theorem outline_wake {ch : ChanId} {a : Answer} {f : Unit → Call α}
    (hrec : ∀ s, F s → ch < s.nextChan ∧ Recorded (s.askOf ch) a s)
    (hk : Knowing strict ok i W F (f ()) Q) :
    Knowing strict ok i W F (issue (.wake ch a) >>= f) Q := by
  refine outline_learn _ (fun _ => hF) rfl (fun s _ hs => ?_)
    (fun s r s' hs hm => hF i s _ r s' hm hs) (fun _ => hk)
  refine ⟨nofun, fun b hb => absurd hb (by simp), fun ch' b hb => ?_, nofun⟩
  cases hb
  exact hrec s hs

omit hF

/-- What the winner of a compare-and-set knows about its row. -/
def Landed (v : Verdict) (s : World ι) : Prop :=
  Recorded v.id ⟨v.state = .approved, v.resolution.answer.getD ""⟩ s ∧
    (v.state = .approved → Approved v.id s)

theorem persistent_landed (v : Verdict) : Lasting strict ok (Landed v) :=
  (persistent_recorded _ _).and (persistent_approved _).imp

variable {v : Verdict}

/-- The world after a won compare-and-set: the thread has one more row, and the row records
the verdict. -/
theorem landed_of_won {row : HITLApproval} (hI : Inv strict s) (hst : v.state ≠ .pending)
    (hg : getHITLApproval s.approvals v.id = some row) :
    Landed v (s.won i v.id (v.apply s.approvals)) := by
  have hrow := get_won (i := i) hg
  have hot : row.onTimeout ≠ some .allow := hI.onTimeout row (Lib.Table.mem_of_get hg)
  refine ⟨⟨_, hrow, ?_, rfl⟩, fun happ => ⟨_, hrow, happ⟩⟩
  cases hv : v.state with
  | pending => exact absurd hv hst
  | approved | denied => simp [HITLApproval.verdict, HITLApproval.resolve]
  | expired => simp [HITLApproval.verdict, HITLApproval.resolve, onTimeoutOutcome, hot]

theorem won_of_won {t : List HITLApproval} (hw : Won i W s) : Won i (id :: W) (s.won i id t) := by
  intro id'
  by_cases h : id' = id
  · simp [World.won, h]
  · simpa [World.won, h] using hw id'

include hF

/-- A compare-and-set.  Won: one more row, and its answer is known.  Lost or failed: nothing
has changed, so what the step condition says of the world before still holds after. -/
theorem outline_verdict {f : o.Res → Call α} (hov : o.verdict = some v)
    (hst : v.state ≠ .pending ∧ (v.state = .expired → v.resolution.approved = some false))
    (hwon : ∀ r, o.landed r = true → Knowing strict ok i (v.id :: W) (fun s => F s ∧ Landed v s) (f r) Q)
    (G : World ι → Prop) (hG : Lasting strict ok G)
    (hlostG : ∀ s r, ok i s o r → o.landed r = false → G s)
    (hlost : ∀ r, o.landed r = false → Knowing strict ok i W (fun s => F s ∧ G s) (f r) Q) :
    Knowing strict ok i W F (issue o >>= f) Q := by
  refine .op (fun s _ _ => ?_) fun r => ?_
  · refine ⟨fun v' hv' => ?_, fun a ha => ?_, fun ch b hb => ?_, fun _ id hid => ?_⟩
    · cases (hov.symm.trans hv')
      exact hst
    all_goals subst_vars; cases hov
  cases hl : o.landed r with
  | true =>
    refine ⟨_, knows_stable (hF.and (persistent_landed v)), fun s s' hp hm => ?_, hwon r hl⟩
    have hFs' := hF i s _ r s' hm hp.2
    obtain ⟨-, row, hg, -, rfl⟩ | ⟨hl', -⟩ := sem_verdict hov hm.2.2.2
    · exact ⟨won_of_won hp.1, hFs', landed_of_won hm.1 hst.1 hg⟩
    · cases hl.symm.trans hl'
  | false =>
    refine ⟨_, knows_stable (hF.and hG), fun s s' hp hm => ?_, hlost r hl⟩
    obtain ⟨hl', -⟩ | ⟨-, rfl⟩ := sem_verdict hov hm.2.2.2
    · cases hl.symm.trans hl'
    · exact ⟨hp.1, hp.2, hlostG _ r hm.2.2.1 hl⟩

variable {inl : Bool} {at_ : Time}
  (hst : st ≠ .pending ∧ (st = .expired → res.approved = some false))
  (hwon : Knowing strict ok i (id :: W) (fun s => F s ∧ Landed ⟨id, st, res, at_⟩ s) (f (.ok ())) Q)

include hst hwon

theorem outline_resolve (G : World ι → Prop) (hG : Lasting strict ok G)
    (hlostG : ∀ s e, ok i s (.resolveHITLApproval inl id st res at_) (.error e) → G s)
    (hlost : ∀ e, Knowing strict ok i W (fun s => F s ∧ G s) (f (.error e)) Q) :
    Knowing strict ok i W F (issue (.resolveHITLApproval inl id st res at_) >>= f) Q := by
  refine outline_verdict hF rfl hst (fun r hr => ?_) G hG
    (fun s r hok hr => ?_) (fun r hr => ?_)
  · match r with
    | .ok () => exact hwon
    | .error e => cases hr
  · match r with
    | .ok () => cases hr
    | .error e => exact hlostG s e hok
  · match r with
    | .ok () => cases hr
    | .error e => exact hlost e

variable (hlost : ∀ e, Knowing strict ok i W F (f (.error e)) Q)

include hlost

/-- A row is closed, or was closed by another. -/
theorem outline_resolve_or :
    Knowing strict ok i W F (issue (.resolveHITLApproval inl id st res at_) >>= f) Q :=
  outline_resolve hF hst hwon (fun _ => True) (Contract.persistent_const True) (fun _ _ _ => trivial)
    fun e => .pre (fun _ _ hs => ⟨hs.1, hs.2.1⟩) (hlost e)

theorem outline_resolveWithinBound {b : AgentAnswerBound} : Knowing strict ok i W F
      (issue (.resolveHITLApprovalWithinBound id b st res at_) >>= f) Q := by
  refine outline_verdict hF rfl hst (fun r hr => ?_) (fun _ => True)
    (Contract.persistent_const True) (fun _ _ _ _ => trivial) (fun r hr => ?_)
  · match r with
    | .ok () => exact hwon
    | .error e => cases hr
  · match r with
    | .ok () => cases hr
    | .error e => exact .pre (fun s _ hs => ⟨hs.1, hs.2.1⟩) (hlost e)

omit hF hst hwon hlost

/-! ## 2. Programs that close rows

`Closes i p wins`: whatever thread `i` has closed and knows before `p`, after it the thread
has closed `wins a` more, where `a` is the result, and still knows what it knew. -/

variable (strict ok)

def Closes (i : ι) (p : Call α) (wins : α → List String) : Prop :=
  ∀ (W : List String) (F : World ι → Prop), Lasting strict ok F →
    Knowing strict ok i W F p fun a => Knows i (wins a ++ W) F

/-- A program that closes nothing. -/
def Quiet (i : ι) (p : Call α) : Prop := Closes strict ok i p fun _ => []

variable {strict ok} {p : Call α} {gains : α → List String} {resume : ResumeHook}

theorem Quiet.bind {f : α → Call β} {gains : β → List String} (hp : Quiet strict ok i p)
    (hf : ∀ a, Closes strict ok i (f a) gains) : Closes strict ok i (p >>= f) gains :=
  fun W F hF => Outline.bind (fun a => hf a W F hF) (hp W F hF)

theorem closes_pure {a : α} (h : gains a = []) : Closes strict ok i (pure a : Call α) gains :=
  fun W F _ => .ret fun _ _ hs => by simpa [h] using hs

theorem quiet_pure (a : α) : Quiet strict ok i (pure a : Call α) := closes_pure rfl

theorem closes_plain {f : o.Res → Call α} (hp : o.plain = true)
    (hf : ∀ r, Closes strict ok i (f r) gains) : Closes strict ok i (issue o >>= f) gains :=
  fun W F hF => outline_plain hF hp fun r => hf r W F hF

theorem quiet_issue (hp : o.plain = true) : Quiet strict ok i (issue o) :=
  closes_plain hp fun r => quiet_pure r

theorem quiet_ite {c : Prop} [Decidable c] {q : Call α} (hp : c → Closes strict ok i p gains)
    (hq : ¬ c → Closes strict ok i q gains) : Closes strict ok i (if c then p else q) gains := by
  split
  · exact hp ‹_›
  · exact hq ‹_›

/-- A harmless program closes nothing. -/
theorem quiet_of : ∀ {p : Call α}, Harmless p → Quiet strict ok i p
  | .ret a, _ => quiet_pure a
  | .op o k, h => by
      have hk : ∀ r, Quiet strict ok i (k r) := fun r => quiet_of (h.2 r)
      cases o with
      | createHITLApproval a =>
        exact fun W F hF => outline_create hF ⟨h.1.1, h.1.2.1⟩ fun r => hk r W F hF
      | resolveHITLApproval _ _ _ _ _ | resolveHITLApprovalWithinBound _ _ _ _ _ | wake _ _
        | execTool _ _ => exact h.1.elim
      | _ => exact closes_plain rfl hk

theorem Routine.quiet (h : Routine p) : Quiet strict ok i p := quiet_of h.harmless

/-- The rows a verdict call closed, by its answer: a failed resume has closed its row too. -/
def winsOf (id : String) : Except Err Unit → List String
  | .ok () => [id]
  | .error .resumeFailed => [id]
  | .error _ => []

/-- A service whose hook closes no rows itself. -/
def HookQuiet (strict : Bool) (ok : StepCond ι) (i : ι)
    (svc : Service) : Prop :=
  ∀ hook, svc.hook = some hook → ∀ id, Quiet strict ok i (hook id)

/-- What the condition on steps gives a thread whose inline yes did not land: the row is
approved all the same. -/
def CleanInline (strict : Bool) (ok : StepCond ι) : Prop :=
  strict = true → ∀ i s o r, ok i s o r → InlineClean i s o r

section Verdicts

theorem quiet_tellLoser (id : String) (onMissing onPending : Err)
    (hm : onMissing ≠ .resumeFailed) (hp : onPending ≠ .resumeFailed) :
    Closes strict ok i (tellLoser id onMissing onPending) (winsOf id) := by
  have herr : ∀ e : Err, e ≠ .resumeFailed → winsOf id (.error e) = [] := by
    intro e he
    cases e <;> first | rfl | exact absurd rfl he
  refine closes_plain rfl fun r => ?_
  match r with
  | .error .notFound => exact closes_pure (herr _ hm)
  | .error .failed => exact closes_pure rfl
  | .ok row =>
    exact quiet_ite (fun _ => closes_pure (herr _ hp)) fun _ =>
      quiet_ite (fun _ => closes_pure rfl) fun _ => closes_pure rfl

/-- A channel that was handed out for this ask. -/
def MadeFor (id : String) (r : Option ChanId) (s : World ι) : Prop :=
  ∀ ch, r = some ch → ch < s.nextChan ∧ s.askOf ch = id

theorem persistent_madeFor (id : String) (r : Option ChanId) :
    Lasting strict ok (MadeFor id r) := by
  intro j s o r' s' hm h ch hr
  obtain ⟨hlt, hask⟩ := h ch hr
  obtain ⟨hlt', hask'⟩ := (Move.change hm).keeps_askOf hlt
  exact ⟨hlt', hask'.trans hask⟩

theorem madeFor_of_lookup {p : Proc} {r : Option ChanId} {s' : World ι}
    (hm : (contract ι strict ok).Move i s (.lookupPending p id) r s') : MadeFor id r s' := by
  rintro ch rfl
  obtain ⟨hI, -, -, hs⟩ := hm
  obtain ⟨hr, rfl⟩ := Lib.of_guard hs
  exact hI.registry p id ch hr.symm

variable {runHook : Bool} (hok : CleanInline strict ok) (hh : HookQuiet strict ok i svc)

include hh

variable {ans : Answer}

/-- **The winner's delivery.**  It wakes a waiter only with the recorded answer, and tells
success, or that the resume failed. -/
theorem outline_deliver (hF : Lasting strict ok F) (hrec : ∀ s, F s → Recorded id ans s) :
    Knowing strict ok i W F (deliver svc id ans runHook)
      fun r s => (r = .ok () ∨ r = .error .resumeFailed) ∧ Knows i W F s := by
  refine outline_ask hF (MadeFor id) (persistent_madeFor id) rfl
    (fun s r s' hm => madeFor_of_lookup hm) fun r => ?_
  have hF' : Lasting strict ok fun s => F s ∧ MadeFor id r s :=
    hF.and (persistent_madeFor id r)
  have hdone : ∀ a, (a = .ok () ∨ a = .error .resumeFailed) →
      Knowing strict ok i W (fun s => F s ∧ MadeFor id r s) (pure a : Call (Except Err Unit))
        fun r s => (r = .ok () ∨ r = .error .resumeFailed) ∧ Knows i W F s :=
    fun a ha => .ret fun _ _ hs => ⟨ha, hs.mono fun _ h => h.1⟩
  cases r with
  | some ch =>
    refine outline_wake hF' (fun s hs => ?_) (hdone _ (.inl rfl))
    obtain ⟨hlt, hask⟩ := hs.2 ch rfl
    exact ⟨hlt, hask ▸ hrec s hs.1⟩
  | none =>
    dsimp only
    split
    · exact hdone _ (.inl rfl)
    rename_i hook hhook
    split
    · refine .bind (fun a => ?_) (hh hook hhook id W _ hF')
      match a with
      | .ok () | .error .noCheckpoint => exact hdone _ (.inl rfl)
      | .error .unanswered | .error .missionFinished | .error .failed => exact hdone _ (.inr rfl)
    · exact hdone _ (.inl rfl)

/-- After a won compare-and-set, delivering makes the reply say so. -/
theorem outline_deliver_landed (hF : Lasting strict ok F)
    (ha : ans = ⟨v.state = .approved, v.resolution.answer.getD ""⟩) :
    Knowing strict ok i (v.id :: W) (fun s => F s ∧ Landed v s) (deliver svc v.id ans runHook)
      fun r => Knows i (winsOf v.id r ++ W) fun s => F s ∧ Landed v s := by
  refine .post ?_ (outline_deliver hh (hF.and (persistent_landed v)) fun s hs => ha ▸ hs.2.1)
  rintro r s - ⟨rfl | rfl, hk⟩ <;> exact hk

omit [DecidableEq ι] hh in
include hok in
/-- An approval inside the gate is lost only to another approval. -/
theorem approved_of_lost {approved : Bool} (s : World ι) (e : SqlErr)
    (h : ok i s (.resolveHITLApproval (!runHook) id (verdictState approved) res at_) (.error e)) :
    strict = true ∧ runHook = false ∧ approved = true → Approved id s := by
  rintro ⟨hs, rfl, rfl⟩
  obtain ⟨row, hg, hst | ⟨-, hr⟩⟩ := hok hs i s _ _ h
  · exact ⟨row, hg, hst⟩
  · cases hr

omit [DecidableEq ι] hh in
theorem verdictState_ok (approved : Bool) (res : ApprovalResolution) :
    verdictState approved ≠ .pending ∧
      (verdictState approved = .expired → res.approved = some false) := by
  cases approved <;> simp [verdictState]

section Recorded

include hok

/-- **`recordVerdict`**: the reply says whether the row was closed, and after an inline yes
the row is approved. -/
theorem outline_recordVerdict (id : String) (approved runHook : Bool)
    (hres : res.answer = none) (hF : Lasting strict ok F) :
    Knowing strict ok i W F (recordVerdict svc id approved res runHook)
      fun r => Knows i (winsOf id r ++ W) fun s =>
        F s ∧ (strict = true ∧ runHook = false ∧ approved = true → Approved id s) := by
  have hG : Lasting strict ok fun s =>
      strict = true ∧ runHook = false ∧ approved = true → Approved id s :=
    (persistent_approved id).imp
  refine outline_plain hF rfl fun now => ?_
  refine outline_resolve hF (verdictState_ok approved res) ?_ _ hG
    (approved_of_lost hok) fun e => ?_
  · refine .post ?_ (outline_deliver_landed (v := ⟨id, verdictState approved, res, now⟩) hh hF ?_)
    · intro r s _ hs
      exact hs.mono fun s h => ⟨h.1, fun hc => h.2.2 (by simp [hc.2.2, verdictState])⟩
    · cases approved <;> simp [verdictState, hres]
  · cases e with
    | failed => exact .ret fun _ _ h => h
    | notFound => exact quiet_tellLoser id _ _ (by simp) (by simp) W _ (hF.and hG)

/-- `resolveRecorded`: the capability check applies only where the hook would run. -/
theorem outline_resolveRecorded (id : String) (approved runHook : Bool)
    (hres : res.answer = none) (hF : Lasting strict ok F) :
    Knowing strict ok i W F (resolveRecorded svc id approved res runHook)
      fun r => Knows i (winsOf id r ++ W) fun s =>
        F s ∧ (strict = true ∧ runHook = false ∧ approved = true → Approved id s) := by
  have hrec := fun b => outline_recordVerdict (W := W) hok hh id approved b hres hF
  unfold resolveRecorded
  cases runHook with
  | false => simpa using hrec false
  | true =>
    refine .bind (fun refused => ?_) ((routine_requireResumer svc id).quiet W F hF)
    cases refused with
    | true => exact .ret fun _ _ hs => hs.mono fun _ h => ⟨h, fun hc => by simp at hc⟩
    | false =>
      exact hrec true

/-- A recorded verdict closes its own row and no other. -/
theorem closes_resolveRecorded (id : String) (approved runHook : Bool) (hres : res.answer = none) :
    Closes strict ok i (resolveRecorded svc id approved res runHook) (winsOf id) :=
  fun _ _ hF => Outline.post (fun _ _ _ hs => hs.mono fun _ h => h.1)
    (outline_resolveRecorded hok hh id approved runHook hres hF)

end Recorded

/-- An agent's verdict, under the mission's bound. -/
theorem closes_respondAsAgentBounded (id agentName : String)
    (approved : Bool) (guidance : String) (max : Int) :
    Closes strict ok i (respondAsAgentBounded svc id agentName approved guidance max)
      (winsOf id) := by
  refine closes_plain rfl fun r => ?_
  match r with
  | .error .notFound | .error .failed => exact closes_pure rfl
  | .ok row =>
    refine quiet_ite (fun _ => closes_pure rfl) fun _ =>
      quiet_ite (fun _ => closes_pure rfl) fun _ => ?_
    refine (routine_requireResumer svc id).quiet.bind fun refused =>
      quiet_ite (fun _ => closes_pure rfl) fun _ => ?_
    refine closes_plain rfl fun now => ?_
    intro W F hF
    refine outline_resolveWithinBound hF (verdictState_ok approved _) ?_ fun e => ?_
    · refine .post (fun _ _ _ hs => hs.mono fun _ h => h.1)
        (outline_deliver_landed (v := ⟨id, verdictState approved, _, now⟩) hh hF ?_)
      cases approved <;> simp [verdictState, marshalDecidedApprovalResolution]
    · cases e with
      | failed => exact closes_pure rfl W F hF
      | notFound => exact quiet_tellLoser id _ _ (by simp) (by simp) W F hF

/-- Words for a question, with or without a bound. -/
theorem closes_answerAttention (id text by_ : String) (byAgent : Bool) (bound : Option Int) :
    Closes strict ok i (answerAttention svc id text by_ byAgent bound) (winsOf id) := by
  refine quiet_ite (fun _ => closes_pure rfl) fun _ => closes_plain rfl fun r => ?_
  match r with
  | .error .notFound | .error .failed => exact closes_pure rfl
  | .ok row =>
    refine quiet_ite (fun _ => closes_pure rfl) fun _ => ?_
    refine (routine_requireResumer svc id).quiet.bind fun refused =>
      quiet_ite (fun _ => closes_pure rfl) fun _ => closes_plain rfl fun now => ?_
    -- both statements write the same verdict, so one delivery serves both
    have hdel : ∀ (W : List String) (F : World ι → Prop), Lasting strict ok F →
        Knowing strict ok i (id :: W) (fun s => F s ∧
            Landed ⟨id, .approved, marshalAttentionResolution text by_ byAgent, now⟩ s)
          (deliver svc id ⟨true, text⟩ true) fun a => Knows i (winsOf id a ++ W) F :=
      fun W F hF => Outline.post (fun _ _ _ hs => hs.mono fun _ h => h.1) (outline_deliver_landed
          (v := ⟨id, .approved, marshalAttentionResolution text by_ byAgent, now⟩) hh hF rfl)
    cases bound with
    | none =>
      intro W F hF
      refine outline_resolve_or hF ⟨by simp, by simp⟩ (hdel W F hF) fun e => ?_
      cases e with
      | failed => exact closes_pure rfl W F hF
      | notFound => exact quiet_tellLoser id _ _ (by simp) (by simp) W F hF
    | some max =>
      refine quiet_ite (fun _ => closes_pure rfl) fun _ => ?_
      intro W F hF
      refine outline_resolveWithinBound hF ⟨by simp, by simp⟩ (hdel W F hF) fun e => ?_
      cases e with
      | failed => exact closes_pure rfl W F hF
      | notFound => exact quiet_tellLoser id _ _ (by simp) (by simp) W F hF

end Verdicts

/-! ## 3. Sweeps -/

section

variable (hh : HookQuiet strict ok i svc)

omit [DecidableEq ι] in
/-- Knowledge of closed rows is a matter of membership. -/
theorem Won.congr {W' : List String} (h : ∀ id, id ∈ W ↔ id ∈ W') (hw : Won i W s) : Won i W' s :=
  fun id => (hw id).trans (h id)

include hh

/-- What the loop says it closed is what it closed. -/
theorem outline_closeRows (hF : Lasting strict ok F) (now : Time) {state : HITLApprovalState}
    {outcome : HITLApproval → Bool} (hst : state ≠ .pending) {rows : List HITLApproval}
    (hrows : ∀ row ∈ rows, outcome row = decide (state = .approved)) (runHook : Bool)
    (closed W : List String) :
    Knowing strict ok i (closed ++ W) F (closeRows svc now state outcome runHook rows closed)
      fun r => Knows i (r.1 ++ W) F := by
  induction rows generalizing closed with
  | nil => exact .ret fun _ _ h => h
  | cons row rows ih =>
    have ih := ih fun r hr => hrows r (by simp [hr])
    have hrow := hrows row (by simp)
    have hno : state = .expired → (marshalApprovalResolution (outcome row)).approved = some false :=
      fun h => by simp [marshalApprovalResolution, hrow, h]
    refine outline_resolve_or hF ⟨hst, hno⟩ ?_ fun e => ?_
    · refine .bind (fun a => ?_) (outline_deliver hh (hF.and (persistent_landed
          ⟨row.id, state, marshalApprovalResolution (outcome row), now⟩)) fun s hs => hrow ▸ hs.2.1)
      refine .pre (fun s _ hs => ?_) (ih (closed ++ [row.id]))
      exact ⟨hs.2.1.congr (by simp; tauto), hs.2.2.1⟩
    · cases e with
      | failed => exact .ret fun _ _ h => h
      | notFound => exact ih closed

theorem closes_sweepExpired : Closes strict ok i (sweepExpired svc) fun r => r.1 := by
  refine closes_plain rfl fun now => ?_
  intro W F hF
  -- the rows of the list come from the table, so they obey the invariant
  refine outline_ask hF
    (fun r _ => ∀ rows, r = .ok rows → ∀ row ∈ rows, row.onTimeout ≠ some .allow)
    (fun r => Contract.persistent_const _) rfl ?_ ?_
  · rintro s r s' hm rows rfl row hrow
    have hs : readList s sweepBatchLimit
        (listExpiredHITLApprovals s.approvals now sweepBatchLimit) (.ok rows) = some s' :=
      hm.2.2.2
    obtain rfl := (readList_eq_some hs).2 rows rfl
    exact hm.1.onTimeout row (mem_listExpired hrow).1
  · intro r
    cases r with
    | error e => exact .ret fun _ _ hs => hs.mono fun _ h => h.1
    | ok rows =>
      by_cases hrows : ∀ row ∈ rows, row.onTimeout ≠ some .allow
      · -- none of the rows carries an "allow", so each is closed with a no
        refine .pre (fun s _ hs => hs.mono fun _ h => h.1)
          (outline_closeRows hh hF now (by simp) (fun row hrow => ?_) true [] W)
        simpa [onTimeoutOutcome] using hrows row hrow
      -- such a list is never returned
      refine .pre (fun s _ hs => show False from ?_) (.absurd _)
      exact hrows fun row hrow => hs.2.2 rows rfl row hrow

theorem closes_abandonMissionAsks (missionID : String) :
    Closes strict ok i (abandonMissionAsks svc missionID) fun r => r.1 := by
  refine closes_plain rfl fun r => ?_
  cases r with
  | error e => exact closes_pure rfl
  | ok rows =>
    exact closes_plain rfl fun now W F hF =>
      outline_closeRows hh hF now (by simp) (fun _ _ => rfl) false [] W

end

/-- The identity of an ask: the caller's, or a new one. -/
theorem quiet_mint_or (id : String) :
    Quiet strict ok i (if id = "" then issue .mintCallID else pure id) :=
  quiet_ite (fun _ => quiet_issue rfl) fun _ => quiet_pure _

/-! ## 4. The gate -/

section

variable (hok : CleanInline strict ok) (hh : HookQuiet strict ok i svc)

include hok hh

/-- The row the gate's inline close took. -/
def gateWins (r : GateResult) : List String := (r.closed.map (winsOf r.id)).getD []

/-- **After the verdict.**  A yes closes the row before the tool runs, so under the condition
on steps the row is approved by then. -/
theorem closes_afterVerdict (id : String) (durable approved : Bool) :
    Closes strict ok i (afterVerdict svc id durable approved) gateWins := by
  intro W F hF
  refine .bind (R := fun closed => Knows i ((closed.map (winsOf id)).getD [] ++ W) fun s =>
      F s ∧ (strict = true ∧ durable = true ∧ approved = true → Approved id s)) (fun closed => ?_) ?_
  · have hF' : Lasting strict ok fun s =>
        F s ∧ (strict = true ∧ durable = true ∧ approved = true → Approved id s) :=
      hF.and (persistent_approved id).imp
    cases approved with
    | true =>
      refine outline_exec hF' (fun hs hd s h => h.2 ⟨hs, hd, rfl⟩) fun done => ?_
      exact .ret fun _ _ hs => hs.mono fun _ h => h.1
    | false =>
      cases durable with
      | false => exact .ret fun _ _ hs => hs.mono fun _ h => h.1
      | true =>
        refine outline_plain hF' rfl fun r => ?_
        exact .ret fun _ _ hs => hs.mono fun _ h => h.1
  · cases durable with
    | false =>
      exact .ret fun _ _ hs => hs.mono fun _ h => ⟨h, fun hc => absurd hc.2.1 (by simp)⟩
    | true =>
      refine .bind (fun r => ?_) (outline_resolveRecorded hok hh id approved false rfl hF)
      exact .ret fun _ _ hs => hs.mono fun _ h => ⟨h.1, fun hc => h.2 ⟨hc.1, rfl, hc.2.2⟩⟩

theorem closes_holdGate (id : String) (durable : Bool) (waiter : Option ChanId)
    (req : ApprovalRequest) (suspendable : Bool) (fuel : Nat) :
    Closes strict ok i (holdGate svc id durable waiter req suspendable fuel) gateWins := by
  refine (routine_waitForVerdict id durable waiter _ _ fuel true).quiet.bind fun waited => ?_
  cases waited with
  | answered approved | onTimeout approved => exact closes_afterVerdict hok hh id durable approved
  | leaving => exact quiet_ite (fun _ => closes_pure rfl) fun _ => closes_pure rfl
  | unaskable => exact closes_pure rfl

/-- A gate closes its own row at most. -/
theorem closes_gateOnApproval (toolCallID : String) (req : ApprovalRequest)
    (detached suspendable : Bool) (fuel : Nat) :
    Closes strict ok i (gateOnApproval svc toolCallID req detached suspendable fuel) gateWins := by
  refine (quiet_mint_or toolCallID).bind fun id => ?_
  refine Quiet.bind ?_ fun waiter => ?_
  · exact quiet_ite (fun _ => quiet_pure _) fun _ => closes_plain rfl fun ch => quiet_pure _
  refine (quiet_of (harmless_recordPendingApproval svc.ceiling id req)).bind fun recorded => ?_
  cases recorded with
  | error e =>
    exact (routine_releaseParked svc id waiter).quiet.bind fun _ =>
      closes_holdGate hok hh id _ _ req _ fuel
  | ok _ =>
    refine quiet_ite (fun _ => closes_pure rfl) fun _ => ?_
    intro W F hF
    refine .bind (fun r => ?_) (closes_holdGate hok hh id true waiter req _ fuel W F hF)
    refine .bind (fun _ => ?_) ((routine_releaseParked svc id waiter).quiet (gateWins r ++ W) F hF)
    exact .ret fun _ _ h => h

end

/-! ## 5. Resuming -/

section

variable {ceiling : Int} {verdict : Option Bool} {mayAsk : Bool} {next : ResumeHook}
  (hnext : ∀ id, Quiet strict ok i (next id))
  (happ : ∀ s, F s → verdict = some true → Approved id s) {beats : Nat} {row : HITLApproval}

include hF happ in
/-- A resumed run runs the gated tool on a yes only, so the row must be approved. -/
theorem outline_runResumed :
    Knowing strict ok i W F (runResumed ceiling id verdict mayAsk) fun _ => Knows i W F := by
  have hrest : Quiet strict ok i (endResumed ceiling mayAsk) :=
    quiet_of (harmless_endResumed ceiling mayAsk)
  unfold runResumed
  by_cases hv : verdict = some true
  · simp only [hv, if_true]
    refine outline_plain hF rfl fun goes => ?_
    refine .bind (fun _ => hrest W F hF) ?_
    cases goes with
    | true =>
      exact outline_exec hF (fun _ _ s hs => happ s hs hv) fun r => .done
    | false => exact .done
  · simp only [hv, if_false, Lib.Prog.pure_eq, Lib.Prog.ret_bind, Bool.false_eq_true]
    exact hrest W F hF

theorem quiet_resumeIfAlreadyAnswered (hr : ∀ id, Quiet strict ok i (resume id)) (id : String) :
    Quiet strict ok i (resumeIfAlreadyAnswered resume id) := by
  refine closes_plain rfl fun r => ?_
  cases r with
  | error e => exact quiet_pure _
  | ok row =>
    exact quiet_ite (fun _ => quiet_pure _) fun _ => (hr id).bind fun _ => quiet_pure _

include hnext hF happ

theorem outline_runClaimed :
    Knowing strict ok i W F (runClaimed ceiling beats id verdict mayAsk next) fun _ => Knows i W F := by
  refine outline_plain hF rfl fun r => ?_
  cases r with
  | error e => exact .done
  | ok cp =>
    refine outline_plain hF rfl fun decodes => ?_
    cases decodes with
    | false => exact (routine_annotateFailure id _).quiet W F hF
    | true =>
      refine .bind (fun _ => ?_) (quiet_of (harmless_heartbeat id beats) W F hF)
      refine .bind (fun e => ?_) (outline_runResumed hF happ)
      cases e with
      | completed => exact (routine_dropCheckpoint id _).quiet W F hF
      | failed => exact (routine_annotateFailure id _).quiet W F hF
      | suspended newID =>
        have hre : Knowing strict ok i W F
            (do
              resumeIfAlreadyAnswered next newID
              return (.ok () : Except ResumeErr Unit)) fun _ => Knows i W F :=
          Outline.bind (fun _ => .done)
            (quiet_resumeIfAlreadyAnswered hnext newID W F hF)
        refine outline_plain hF rfl fun d => ?_
        match d with
        | .error .failed => exact .done
        | .error .notFound => exact hre
        | .ok () => exact hre

theorem outline_resumeAnswered :
    Knowing strict ok i W F (resumeAnswered ceiling beats id row verdict mayAsk next)
      fun _ => Knows i W F := by
  refine .bind (fun finished => ?_) ((routine_missionFinished row).quiet W F hF)
  cases finished with
  | true => exact (routine_dropCheckpoint id _).quiet W F hF
  | false =>
    refine outline_plain hF rfl fun now => outline_plain hF rfl fun c => ?_
    match c with
    | .error .notFound | .error .failed => exact .done
    | .ok () => exact outline_runClaimed hF hnext happ

omit hnext hF happ

omit [DecidableEq ι] in
/-- A yes that a resume injects comes from an approved row: a row that expired records a no. -/
theorem approved_of_injected (hI : Inv strict s) (hg : getHITLApproval s.approvals id = some row)
    (hinj : row.injected = .ok (some true)) : Approved id s := by
  refine ⟨row, hg, ?_⟩
  unfold HITLApproval.injected at hinj
  split at hinj
  · split at hinj <;> simp at hinj
  unfold HITLApproval.resumeVerdict at hinj
  cases hst : row.state with
  | approved => rfl
  | pending | denied => simp [hst, Except.map] at hinj
  | expired => simp [hst, Except.map, hI.expired id row hg hst] at hinj

/-- What reading a row tells a resume: a yes it would inject is an approved row. -/
def YesApproved (id : String) (r : Except SqlErr HITLApproval) (s : World ι) : Prop :=
  ∀ row, r = .ok row → row.injected = .ok (some true) → Approved id s

theorem persistent_yesApproved (id : String) (r : Except SqlErr HITLApproval) :
    Lasting strict ok (YesApproved id r) :=
  fun j s o r' s' hm h row hr hinj => persistent_approved id j s o r' s' hm (h row hr hinj)

include hnext in
theorem quiet_resumeWith (id : String) :
    Quiet strict ok i (resumeWith ceiling beats mayAsk next id) := by
  intro W F hF
  refine outline_ask hF (YesApproved id) (persistent_yesApproved id) rfl ?_ fun r => ?_
  · rintro s r s' hm row rfl hinj
    have hs : read s (getHITLApproval s.approvals id) (.ok row) = some s' := hm.2.2.2
    obtain ⟨rfl, hrow, -⟩ := read_eq_some hs
    exact approved_of_injected hm.1 (hrow row rfl) hinj
  · have hF' : Lasting strict ok fun s => F s ∧ YesApproved id r s :=
      hF.and (persistent_yesApproved id r)
    -- the extra fact is only needed on the way
    refine .post (Q := fun _ => Knows i W fun s => F s ∧ YesApproved id r s)
      (fun _ _ _ hs => hs.mono fun _ h => h.1) ?_
    cases r with
    | error e => exact .done
    | ok row =>
      dsimp only
      split
      · exact .done
      rename_i verdict hinj
      refine outline_resumeAnswered hF' hnext ?_
      rintro s ⟨-, hyes⟩ rfl
      exact hyes row rfl hinj

/-- A resume closes no row, however often it is repeated. -/
theorem quiet_resumeFromCheckpoint (ceiling : Int) (beats : Nat) :
    ∀ again id, Quiet strict ok i (resumeFromCheckpoint ceiling beats again id)
  | 0, id => quiet_resumeWith (fun _ => quiet_pure _) id
  | again + 1, id => quiet_resumeWith (quiet_resumeFromCheckpoint ceiling beats again) id

end

/-! ## 6. Every party -/

theorem hookQuiet_service (h : Host) : HookQuiet strict ok i h.service := by
  intro hook hh id
  rw [h.hook_service hh]
  exact quiet_resumeFromCheckpoint _ _ _ _

theorem quiet_resumeEach (hr : ∀ id, Quiet strict ok i (resume id)) :
    ∀ ids, Quiet strict ok i (resumeEach resume ids)
  | [] => quiet_pure _
  | id :: ids => (hr id).bind fun _ => quiet_resumeEach hr ids

theorem quiet_sweepStranded (hr : ∀ id, Quiet strict ok i (resume id)) (limit : Nat) :
    Quiet strict ok i (sweepStrandedCheckpoints resume limit) := by
  refine closes_plain rfl fun cursor => closes_plain rfl fun r => ?_
  cases r with
  | error e => exact quiet_pure _
  | ok cps =>
    refine closes_plain rfl fun now => ?_
    exact (routine_strandedAmong now cps []).quiet.bind fun ids => quiet_resumeEach hr ids

/-- A run that suspends closes no row. -/
theorem outline_suspendRun (hr : ∀ id, Quiet strict ok i (resume id)) (askID : String) {a : α}
    {Q : α → World ι → Prop} (hF : Lasting strict ok F) (hQ : ∀ s, Knows i W F s → Q a s) :
    Knowing strict ok i W F (suspendRun resume askID a) Q := by
  refine .bind (fun c => ?_) (quiet_of (harmless_saveCheckpoint askID) W F hF)
  cases c with
  | error e => exact .ret fun s _ h => hQ s h
  | ok _ =>
    exact .bind (fun _ => .ret fun s _ h => hQ s h) (quiet_resumeIfAlreadyAnswered hr askID W F hF)

theorem closes_promptRun (hok : CleanInline strict ok) (hh : HookQuiet strict ok i svc)
    (hr : ∀ id, Quiet strict ok i (resume id)) (callID : String) (req : ApprovalRequest)
    (detached : Bool) (fuel : Nat) :
    Closes strict ok i (promptRun svc resume callID req detached fuel) gateWins := by
  refine closes_plain rfl fun id W F hF => ?_
  refine .bind (fun r => ?_) (closes_gateOnApproval hok hh id req _ _ fuel W F hF)
  split
  · exact outline_suspendRun hr _ hF fun _ h => h
  · exact .ret fun _ _ h => h

theorem quiet_attentionRun (hr : ∀ id, Quiet strict ok i (resume id))
    (callID summary missionID : String) (detached : Bool) (fuel : Nat) :
    Quiet strict ok i (attentionRun svc resume callID summary missionID detached fuel) := by
  refine closes_plain rfl fun id => (quiet_of (harmless_requestAttention svc _ fuel)).bind fun r => ?_
  cases r with
  | pending askID => exact fun W F hF => outline_suspendRun hr askID hF fun _ h => h
  | _ => exact quiet_pure _

/-- The rows a party's reply says it closed. -/
def Reply.wins : Reply → List String
  | .verdict id r => winsOf id r
  | .closed ids _ => ids
  | .gate r => gateWins r
  | _ => []

theorem Closes.reply (hp : Closes strict ok i p gains) {f : α → Reply}
    (hf : ∀ a, (f a).wins = gains a) : Closes strict ok i (do let a ← p; return f a) Reply.wins :=
  fun W F hF => Outline.bind (fun a => .ret fun _ _ hs => by simpa [hf a] using hs) (hp W F hF)

/-- **Every party's reply tells exactly which rows it closed.** -/
theorem closes_party (hok : CleanInline strict ok) (party : Party) :
    Closes strict ok i party.prog Reply.wins := by
  have hres : ∀ h : Host, ∀ id, Quiet strict ok i (h.resume id) := fun h id =>
    quiet_resumeFromCheckpoint _ _ _ id
  have hh : ∀ h : Host, HookQuiet strict ok i h.service := hookQuiet_service
  cases party with
  | respond h id approved | respondWithGuidance h id approved decidedBy guidance =>
    exact (closes_resolveRecorded hok (hh h) id approved true rfl).reply fun _ => rfl
  | respondAsAgentBounded h id agentName approved guidance max =>
    exact (closes_respondAsAgentBounded (hh h) id agentName approved guidance max).reply
      fun _ => rfl
  | answer h id text by_ byAgent bound =>
    exact (closes_answerAttention (hh h) id text by_ byAgent bound).reply fun _ => rfl
  | sweepExpired h => exact (closes_sweepExpired (hh h)).reply fun _ => rfl
  | abandonMissionAsks h m => exact (closes_abandonMissionAsks (hh h) m).reply fun _ => rfl
  | requestApproval h c req fuel =>
    exact Closes.reply (quiet_of (harmless_requestApproval _ c req fuel)) fun _ => rfl
  | requestAttention h req fuel =>
    exact Closes.reply (quiet_of (harmless_requestAttention _ req fuel)) fun _ => rfl
  | gate h c req detached suspendable fuel =>
    exact (closes_gateOnApproval hok (hh h) c req detached suspendable fuel).reply fun _ => rfl
  | run h callID req detached fuel =>
    exact (closes_promptRun hok (hh h) (hres h) callID req detached fuel).reply fun _ => rfl
  | attentionRun h callID summary m detached fuel =>
    exact Closes.reply (quiet_attentionRun (hres h) callID summary m detached fuel) fun _ => rfl
  | sweepStranded h limit =>
    exact Closes.reply (quiet_sweepStranded (hres h) limit) fun _ => rfl
  | clock ticks => exact Closes.reply (routine_tick ticks).quiet fun _ => rfl

end Contenox.Approvals
