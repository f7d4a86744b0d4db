/-
# What every party may rely on

The contract under which the approval programs are verified: an invariant of the world, and
a guarantee that says when an operation may be issued.

The heart is that a terminal row never changes.  From it every fact a program learns about a
closed row is PERSISTENT, whatever the other parties do, and so a channel can only ever hold
what its own row records.  The other half is bookkeeping: `Won i W` says that `W` are exactly
the rows thread `i` has closed.  No other thread can change that.

`strict` switches one clause on: a gated tool runs on a durable row only where that row is
approved.  The gate does not keep this clause in every run, so it is proved under a
condition on steps (`InlineClean`); all the rest needs no condition.
-/
import Contenox.Approvals.Runs

namespace Contenox.Approvals

open Lib (Prog Contract)

variable {ι : Type} [DecidableEq ι] {row : HITLApproval} {i : ι} {s s' : World ι} {o : Op}
  {id : String} {strict : Bool} {ok : StepCond ι}

/-! ## 1. Facts about rows -/

/-- The row of `id` is closed, and this is the answer it records. -/
def Recorded (id : String) (a : Answer) (s : World ι) : Prop :=
  ∃ row, getHITLApproval s.approvals id = some row ∧ row.verdict = some a.approved ∧
    row.answerOf = a.text

/-- The row of `id` is closed as approved. -/
def Approved (id : String) (s : World ι) : Prop :=
  ∃ row, getHITLApproval s.approvals id = some row ∧ row.state = .approved

theorem state_ne_pending_of_verdict {b : Bool} (h : row.verdict = some b) :
    row.state ≠ .pending := by
  intro hp
  simp [HITLApproval.verdict, hp] at h

theorem get_won {v : Verdict} (hg : getHITLApproval s.approvals v.id = some row) :
    getHITLApproval (s.won i v.id (v.apply s.approvals)).approvals v.id =
      some (row.resolve v.state v.resolution v.at_) := by
  simp [World.won, Verdict.apply, getHITLApproval_update, hg]

/-- What becomes of a row: it stays as it is, or the step writes a verdict over it. -/
theorem Change.row_after (h : Change i s o s') (hg : getHITLApproval s.approvals id = some row) :
    (getHITLApproval s'.approvals id = some row ∧ s'.winner id = s.winner id) ∨
      ∃ v, o.verdict = some v ∧ v.id = id ∧ row.state = .pending ∧ s'.winner id = some i ∧
        getHITLApproval s'.approvals id = some (row.resolve v.state v.resolution v.at_) := by
  cases h with
  | create a t hc =>
    obtain ⟨hfree, hget⟩ := Lib.Table.insert_eq_some hc
    have hne : id ≠ a.id := by
      rintro rfl
      cases hg.symm.trans hfree
    exact .inl ⟨by simpa [getHITLApproval, hget, hne] using hg, rfl⟩
  | resolve _ v row' hov hg' hp =>
    by_cases hid : id = v.id
    · subst hid
      cases (hg.symm.trans hg')
      exact .inr ⟨v, hov, rfl, hp, by simp [World.won], get_won hg⟩
    · simp [World.won, Verdict.apply, getHITLApproval_update, hid, hg]
  | _ => exact .inl ⟨hg, rfl⟩

/-- Where a row comes from: it was there, it is a new one, or it carries the verdict of the
step's UPDATE. -/
theorem Change.written (h : Change i s o s') (hnew : getHITLApproval s'.approvals id = some row) :
    getHITLApproval s.approvals id = some row ∨ o = .createHITLApproval row ∨
      ∃ v row₀, o.verdict = some v ∧ v.id = id ∧ getHITLApproval s.approvals id = some row₀ ∧
        row = row₀.resolve v.state v.resolution v.at_ := by
  cases h with
  | create a t hc =>
    obtain ⟨-, hget⟩ := Lib.Table.insert_eq_some hc
    simp only [getHITLApproval, hget] at hnew
    split at hnew
    · rw [Option.some.inj hnew]
      exact .inr (.inl rfl)
    · exact .inl hnew
  | resolve _ v row₀ hov hg hp =>
    simp only [World.won, Verdict.apply, getHITLApproval_update] at hnew
    split at hnew
    · rename_i hid
      rw [hg] at hnew
      exact .inr (.inr ⟨v, row₀, hov, hid.symm, by rw [hid, hg], (Option.some.inj hnew).symm⟩)
    · exact .inl hnew
  | _ => exact .inl hnew

/-- **A terminal row never changes**, whoever moves. -/
theorem Change.keeps_terminal (h : Change i s o s') (hg : getHITLApproval s.approvals id = some row)
    (ht : row.state ≠ .pending) : getHITLApproval s'.approvals id = some row := by
  rcases h.row_after hg with ⟨hg', -⟩ | ⟨_, -, -, hp, -⟩
  · exact hg'
  · exact absurd hp ht

theorem Recorded.change (h : Change i s o s') {a : Answer} (hr : Recorded id a s) :
    Recorded id a s' := by
  obtain ⟨row, hg, hv, ht⟩ := hr
  exact ⟨row, h.keeps_terminal hg (state_ne_pending_of_verdict hv), hv, ht⟩

theorem Approved.change (h : Change i s o s') (ha : Approved id s) : Approved id s' := by
  obtain ⟨row, hg, hst⟩ := ha
  exact ⟨row, h.keeps_terminal hg (by simp [hst]), hst⟩

/-- A row that is there stays there, with the same on-timeout. -/
theorem Change.keeps_onTimeout (h : Change i s o s')
    (hall : ∀ row ∈ s.approvals, row.onTimeout ≠ some .allow)
    (hnew : ∀ a, o = .createHITLApproval a → a.onTimeout ≠ some .allow) :
    ∀ row ∈ s'.approvals, row.onTimeout ≠ some .allow := by
  cases h with
  | create a t hc =>
    intro row hr
    rcases (Lib.Table.mem_insert hc).mp hr with hr | rfl
    · exact hall row hr
    · exact hnew row rfl
  | resolve _ v row' _ _ _ =>
    intro row hr
    rcases Lib.Table.mem_update hr with ⟨hold, -⟩ | ⟨old, hold, -, rfl⟩
    · exact hall row hold
    · exact hall old hold
  | _ => exact hall

/-! ## 2. The contract -/

/-- The step is not an inline close with a yes over a row that someone else has closed
otherwise, nor one whose UPDATE fails while the row is open. -/
def InlineClean (_ : ι) (s : World ι) : (o : Op) → o.Res → Prop
  | .resolveHITLApproval true id .approved _ _, r =>
      ∃ row, getHITLApproval s.approvals id = some row ∧
        (row.state = .approved ∨ row.state = .pending ∧ r = .ok ())
  | _, _ => True

/-- The invariant. -/
structure Inv (strict : Bool) (s : World ι) : Prop where
  chans : ∀ ch a, s.chans ch = some a → ch < s.nextChan ∧ Recorded (s.askOf ch) a s
  received : ∀ ch a, (ch, a) ∈ s.received → ch < s.nextChan ∧ Recorded (s.askOf ch) a s
  registry : ∀ p id ch, s.pending p id = some ch → ch < s.nextChan ∧ s.askOf ch = id
  winner : ∀ id, (∃ i, s.winner id = some i) ↔
    ∃ row, getHITLApproval s.approvals id = some row ∧ row.state ≠ .pending
  onTimeout : ∀ row ∈ s.approvals, row.onTimeout ≠ some .allow
  expired : ∀ id row, getHITLApproval s.approvals id = some row → row.state = .expired →
    row.resolution.bind ApprovalResolution.approved = some false
  executed : strict = true → ∀ id ∈ s.executed, Approved id s

/-- When an operation may be issued. -/
def Guar (strict : Bool) (_ : ι) (s : World ι) (o : Op) : Prop :=
  (∀ v, o.verdict = some v →
    v.state ≠ .pending ∧ (v.state = .expired → v.resolution.approved = some false)) ∧
  (∀ a, o = .createHITLApproval a → a.state = .pending ∧ a.onTimeout ≠ some .allow) ∧
  (∀ ch a, o = .wake ch a → ch < s.nextChan ∧ Recorded (s.askOf ch) a s) ∧
  (strict = true → ∀ id, o = .execTool id true → Approved id s)

/-- The contract of the approval programs, over the steps that meet `ok`. -/
def contract (ι : Type) [DecidableEq ι] (strict : Bool) (ok : StepCond ι) :
    Contract ι (World ι) Op Op.Res :=
  ⟨sem, ok, Inv strict, Guar strict⟩

/-- No step of any thread destroys `F`. -/
abbrev Lasting (strict : Bool) (ok : StepCond ι) (F : World ι → Prop) : Prop :=
  (contract ι strict ok).Persistent F

theorem Move.change {r : o.Res} (h : (contract ι strict ok).Move i s o r s') : Change i s o s' :=
  sem_change h.2.2.2

theorem persistent_recorded (id : String) (a : Answer) : Lasting strict ok (Recorded id a) :=
  fun _ _ _ _ _ hm hr => hr.change (Move.change hm)

theorem persistent_approved (id : String) : Lasting strict ok (Approved id) :=
  fun _ _ _ _ _ hm ha => ha.change (Move.change hm)

/-! ## 3. The invariant is preserved -/

variable (h : Change i s o s')

include h

/-- The winners and the closed rows stay in step. -/
theorem Change.winner_iff (hw : ∀ id, (∃ j, s.winner id = some j) ↔
      ∃ row, getHITLApproval s.approvals id = some row ∧ row.state ≠ .pending)
    (hv : ∀ v, o.verdict = some v → v.state ≠ .pending)
    (hc : ∀ a, o = .createHITLApproval a → a.state = .pending) (id : String) :
    (∃ j, s'.winner id = some j) ↔
      ∃ row, getHITLApproval s'.approvals id = some row ∧ row.state ≠ .pending := by
  cases h with
  | create a t hcr =>
    obtain ⟨hfree, hget⟩ := Lib.Table.insert_eq_some hcr
    rw [hw id]
    by_cases hid : id = a.id
    · subst hid
      simp [getHITLApproval, hget, hc a rfl] at hfree ⊢
      simp [hfree]
    · simp [getHITLApproval, hget, hid]
  | resolve _ v row hov hg hp =>
    by_cases hid : id = v.id
    · subst hid
      simp [World.won, Verdict.apply, getHITLApproval_update, hg, HITLApproval.resolve, hv v hov]
    · simpa [World.won, Verdict.apply, getHITLApproval_update, hid] using hw id
  | _ => exact hw id

/-- An expired row records a no. -/
theorem Change.expired_no
    (he : ∀ id row, getHITLApproval s.approvals id = some row → row.state = .expired →
      row.resolution.bind ApprovalResolution.approved = some false)
    (hv : ∀ v, o.verdict = some v → v.state = .expired → v.resolution.approved = some false)
    (hc : ∀ a, o = .createHITLApproval a → a.state = .pending) (id : String)
    (row : HITLApproval) (hg : getHITLApproval s'.approvals id = some row)
    (hst : row.state = .expired) :
    row.resolution.bind ApprovalResolution.approved = some false := by
  rcases h.written hg with hg | hnew | ⟨v, row₀, hov, -, -, rfl⟩
  · exact he id row hg hst
  · exact absurd hst (by simp [hc _ hnew])
  · exact hv v hov hst

/-- A channel that has been handed out keeps its ask. -/
theorem Change.keeps_askOf {ch : ChanId}
    (hlt : ch < s.nextChan) : ch < s'.nextChan ∧ s'.askOf ch = s.askOf ch := by
  cases h with
  | register q id' =>
    have hne : ch ≠ s.nextChan := Nat.ne_of_lt hlt
    simp only [Function.update_apply, if_neg hne]
    exact ⟨Nat.lt_succ_of_lt hlt, trivial⟩
  | _ => exact ⟨hlt, rfl⟩

/-- Registration hands out a channel nobody has, and notes which ask it is for. -/
theorem Change.registry_ok
    (hr : ∀ p id ch, s.pending p id = some ch → ch < s.nextChan ∧ s.askOf ch = id) :
    ∀ p id ch, s'.pending p id = some ch → ch < s'.nextChan ∧ s'.askOf ch = id := by
  have hold := @h.keeps_askOf
  cases h with
  | register q id' =>
    intro p id ch hp
    simp only [Function.update_apply] at hp
    split at hp
    · simp only [Function.update_apply] at hp
      split at hp
      · rename_i hid
        cases hp
        simp [hid]
      · obtain ⟨hlt, rfl⟩ := hr _ id ch hp
        exact hold hlt
    · obtain ⟨hlt, rfl⟩ := hr p id ch hp
      exact hold hlt
  -- taking a waiter out only removes entries
  | release q id' ch'
  | unregister q id' => exact fun p id ch hp => hr p id ch (unregister_eq_some hp)
  | _ => exact hr

omit h

theorem preserved : (contract ι strict ok).Preserved := by
  intro i s o r s' hm
  have hch := Move.change hm
  obtain ⟨hI, ⟨hgv, hgc, hgw, hge⟩, -, -⟩ := hm
  -- a channel fact that held before still does
  have hkeep : ∀ ch a, ch < s.nextChan ∧ Recorded (s.askOf ch) a s →
      ch < s'.nextChan ∧ Recorded (s'.askOf ch) a s' := by
    rintro ch a ⟨hlt, hrec⟩
    obtain ⟨hlt', hask⟩ := hch.keeps_askOf hlt
    exact ⟨hlt', hask ▸ hrec.change hch⟩
  refine ⟨?_, ?_, hch.registry_ok hI.registry,
    hch.winner_iff hI.winner (fun v hv => (hgv v hv).1) (fun a ha => (hgc a ha).1),
    hch.keeps_onTimeout hI.onTimeout (fun a ha => (hgc a ha).2),
    hch.expired_no hI.expired (fun v hv => (hgv v hv).2) (fun a ha => (hgc a ha).1), ?_⟩
  · intro ch a hc
    refine hkeep ch a ?_
    cases hch with
    | wake ch' a' _ =>
      simp only [Function.update_apply] at hc
      split at hc
      · rename_i heq
        cases hc
        subst heq
        exact hgw _ _ rfl
      · exact hI.chans ch a hc
    | receive _ _ _ ch' a' _ =>
      simp only [Function.update_apply] at hc
      split at hc
      · cases hc
      · exact hI.chans ch a hc
    | _ => exact hI.chans ch a hc
  · intro ch a hc
    refine hkeep ch a ?_
    cases hch with
    | receive _ _ _ ch' a' hfull =>
      rcases List.mem_cons.mp hc with heq | hc
      · obtain ⟨rfl, rfl⟩ := Prod.mk.inj heq
        exact hI.chans ch a hfull
      · exact hI.received ch a hc
    | _ => exact hI.received ch a hc
  · intro hstrict id hid
    have hch' := hch
    cases hch with
    | exec id' =>
      rcases List.mem_cons.mp hid with rfl | hid
      · exact (hge hstrict id rfl).change hch'
      · exact (hI.executed hstrict id hid).change hch'
    | _ => exact (hI.executed hstrict id hid).change hch'

omit [DecidableEq ι] in
theorem inv_init : Inv strict (World.init ι) := by
  constructor <;> simp [World.init, getHITLApproval]

end Contenox.Approvals
