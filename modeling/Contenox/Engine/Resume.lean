/-
# Suspending and resuming against waiting in place

A run that suspends on an approval, is written down and resumed should go on as if it had waited.
Two drivers say what each does.  `waitRun` is a run whose attempts wait inside for every verdict;
`resumedRun` leaves the attempt, goes through the checkpoint, and enters the attempt again.  Both
list the attempts they make and their result.

They agree on every run all of whose suspensions are `Restorable` (`resumed_run_eq_waitRun`).
They do not agree on every run: the attempts already made and the failure being recovered from
are not in the checkpoint, or not read from it, and a retry of the resumed task is given the
transcript where the waiting one is given the task's input.
-/
import Contenox.Engine.Placed
import Contenox.Engine.Waiting
import Mathlib.Logic.Relation

namespace Contenox.Engine

open Lib

variable {W : Type} {c : RunConfig}

/-! ## 1. The two drivers -/

/-- The process a run lives in. -/
structure Host (σ α ρ : Type) where
  env : EnvOutside σ
  codec : Codec
  reg : σ → Registry
  hd : Handlers σ α ρ
  verdicts : Verdicts σ α ρ

section

variable {σ α ρ : Type} (P : Host σ α ρ)

def Host.exec : σ → TaskCall → σ × TaskResult := execOf P.hd

/-- The executor that waits inside its attempts. -/
def Host.waits : σ → TaskCall → σ × TaskResult := execOf (P.hd.waiting P.verdicts)

/-- The state of the process when the verdict on a parked run is there. -/
def Host.decided (p : Parked σ) : σ := P.verdicts.deliver p.world p.approvalID

def Host.resume (c : RunConfig) (p : Parked σ) : Except String (RunConfig × Run σ) :=
  suspendAndResume P.env P.codec P.reg c p (P.decided p)

/-- A run over `n` steps that waits in place: its calls, and its result if it has come to one. -/
def Host.waitRun (c : RunConfig) : Nat → Run σ → List TaskCall × Option (Except String Typed)
  | 0, _ => ([], none)
  | n + 1, r =>
    match step P.env c P.waits r with
    | .next r' => let rest := waitRun c n r'; (callOf P.env c r ++ rest.1, rest.2)
    | .finished _ result => (callOf P.env c r, some result)
    | .parked _ => (callOf P.env c r, none)

/-- The same run, suspended and resumed at every approval.  `again` says that the run stands at
an attempt that is entered again, and was listed when it was first made. -/
def Host.resumedRun :
    Nat → Bool → RunConfig → Run σ → List TaskCall × Option (Except String Typed)
  | 0, _, _, _ => ([], none)
  | n + 1, again, c, r =>
    let calls := if again then [] else callOf P.env c r
    match step P.env c P.exec r with
    | .next r' => let rest := resumedRun n false c r'; (calls ++ rest.1, rest.2)
    | .finished _ result => (calls, some result)
    | .parked p =>
      match P.resume c p with
      | .error e => (calls, some (.error e))
      | .ok (c', r') => let rest := resumedRun n true c' r'; (calls ++ rest.1, rest.2)

/-- One step of the resumed run, in one configuration. -/
inductive ResumeStep (c : RunConfig) (r : Run σ) : Run σ → Prop
  | next {r' : Run σ} (h : step P.env c P.exec r = .next r') : ResumeStep c r r'
  | resume {p : Parked σ} {r' : Run σ} (h : step P.env c P.exec r = .parked p)
      (back : P.resume c p = .ok (c, r')) : ResumeStep c r r'

/-- Where the resumed run comes to from `r` when it is no longer suspended. -/
inductive Through (c : RunConfig) : Run σ → Move σ → Prop
  | now {r : Run σ} {mv : Move σ} (made : step P.env c P.exec r = mv)
      (moved : ∀ p, mv ≠ .parked p) : Through c r mv
  | later {r r' : Run σ} {p : Parked σ} {mv : Move σ} (made : step P.env c P.exec r = .parked p)
      (back : P.resume c p = .ok (c, r')) (rest : Through c r' mv) : Through c r mv

/-- What a run lists that goes on from a move for `n` steps. -/
def Host.listFrom (c : RunConfig) (n : Nat) :
    Move σ → List TaskCall × Option (Except String Typed)
  | .next r => P.resumedRun n false c r
  | .finished _ result => ([], some result)
  | .parked _ => ([], none)

variable {P}

/-- Suspensions on the way add nothing to the list. -/
theorem Through.resumedRun {r : Run σ} {mv : Move σ} (h : Through P c r mv) (n : Nat)
    (again : Bool) : ∃ k, P.resumedRun k again c r =
      ((if again then [] else callOf P.env c r) ++ (P.listFrom c n mv).1,
        (P.listFrom c n mv).2) := by
  induction h generalizing again with
  | @now r mv made moved =>
    refine ⟨n + 1, ?_⟩
    rw [Host.resumedRun, made]
    cases mv with
    | next r' => rfl
    | finished w result => simp [Host.listFrom]
    | parked p => exact absurd rfl (moved p)
  | later made back rest ih =>
    obtain ⟨k, hk⟩ := ih true
    refine ⟨k + 1, ?_⟩
    rw [Host.resumedRun, made]
    dsimp only
    rw [back]
    dsimp only
    rw [hk, if_pos rfl, List.nil_append]

end

/-! ## 2. When a suspension can be restored -/

section

variable {σ α ρ : Type} (P : Host σ α ρ) (c : RunConfig)

/-- What the checkpoint of a suspension must not lose: it is the task's first attempt, nothing
has failed before it in the run, the transcript is the task's input or the task neither retries
nor routes its failure, the variables survive the encoding, no list of toolsets is empty, and the
resuming process finds the same tools.  What it takes to enter the task again: it works off the
batch its input ends in, whose names resolve alike in any order of the table, and the call that
was held does what the blocked one does. -/
structure Restorable (p : Parked σ) : Prop where
  firstAttempt : p.retry = 0
  noFailure : p.mem.failure = none
  notRecovering : p.mem.recovering = false
  input : p.input = (.history p.history, .chatHistory) ∨
    (p.task.maxRetries = 0 ∧ p.task.transition.onFailure = "")
  vars : P.codec.throughVars p.mem.vars = .ok p.mem.vars
  history : P.codec.throughVar "history" (.history p.history, .chatHistory) =
    .ok (.history p.history, .chatHistory)
  scopes : ∀ t ∈ c.tasks, ∀ cfg, t.config = some cfg → cfg.tools ≠ some []
  runtime : c.runtime ≠ .listed []
  tools : ∃ acc, collectTools (P.reg (P.decided p)) p.task.id c.runtime c.tasks ⟨[], []⟩ = .ok acc ∧
    acc.table = c.tools
  attached : P.env.canceled (P.decided p) = none
  running : P.hd.canceled (P.decided p) = none
  handler : p.task.handler = .executeToolCalls
  batch : ∃ pre m dn todo h, p.input = (.history h, .chatHistory) ∧ OpenBatch pre m dn todo h ∧
    ∀ tc ∈ m.callTools, ∀ w₁ w₂,
      resolveToolWithResolution ((P.hd.outside c.tools).table w₁) tc.name =
        resolveToolWithResolution ((P.hd.outside c.tools).table w₂) tc.name
  settles : Settles (P.hd.outside c.tools) P.verdicts p.world p.approvalID

/-- Every approval the run asks for at `s` suspends it, and so that it can be restored. -/
structure Restores (s : Run σ) : Prop where
  saved : ∀ call ∈ callOf P.env c s, (P.exec s.world call).2.Waits →
    ∃ p, step P.env c P.exec s = .parked p
  restorable : ∀ p, step P.env c P.exec s = .parked p → Restorable P c p

end

variable {r r' : Run W} {w : W} {input : Typed} {t : TaskDefinition}

/-! ## 3. Runs that cannot be told apart -/

section Same

variable {out : EnvOutside W} {m : Memory} {o input' : Typed} {task : TaskDefinition} {retry : Nat}

/-- Two runs that go on alike: equal, or at one attempt, before which the output of the loop is
not read again. -/
inductive Same : Run W → Run W → Prop
  | refl (r : Run W) : Same r r
  | attempting (w : W) (m : Memory) (o : Typed) (task : TaskDefinition) (input : Typed)
      (retry : Nat) : Same ⟨w, m, .attempting task input retry⟩
        ⟨w, { m with output := o }, .attempting task input retry⟩

inductive SameMove : Move W → Move W → Prop
  | next {r r' : Run W} (h : Same r r') : SameMove (.next r) (.next r')
  | finished (w : W) (result : Except String Typed) :
      SameMove (.finished w result) (.finished w result)

theorem callOf_same (h : Same r r') : callOf out c r = callOf out c r' := by
  cases h with
  | refl => rfl
  | attempting => rfl

theorem SameMove.of_over {mv : Move W} (h : ∀ p, mv ≠ .parked p) : SameMove mv mv := by
  cases mv with
  | next r => exact .next (.refl r)
  | finished w result => exact .finished w result
  | parked p => exact absurd rfl (h p)

theorem afterAttempt_over {res : W × TaskResult} (hdone : ¬ res.2.Waits) (p : Parked W) :
    afterAttempt out c m task input retry res ≠ .parked p := by
  intro h
  have hfollows := afterAttempt_spec out c m task input retry res.1 res.2
  rw [h] at hfollows
  generalize res.2 = r at hdone hfollows
  cases hfollows with
  | waits => exact hdone ⟨_, _, _, rfl⟩

/-- What follows an attempt that does not wait does not depend on the loop's output, nor on an
input that is not used again. -/
theorem afterAttempt_same {res : W × TaskResult} (hdone : ¬ res.2.Waits)
    (unused : input = input' ∨ (task.maxRetries = 0 ∧ task.transition.onFailure = "")) :
    SameMove (afterAttempt out c m task input retry res)
      (afterAttempt out c { m with output := o } task input' retry res) := by
  have hrefl : SameMove (afterAttempt out c m task input retry res) _ :=
    .of_over (afterAttempt_over hdone)
  obtain ⟨w, res⟩ := res
  cases res with
  | ok output eval => exact hrefl
  | pending output id err => exact absurd ⟨output, id, err, rfl⟩ hdone
  | failed output err =>
    unfold afterAttempt at hrefl ⊢
    dsimp only at hrefl ⊢
    by_cases hr : retry < task.maxRetries
    · rw [if_pos hr, if_pos hr]
      rcases unused with rfl | ⟨h0, -⟩
      · exact .next (.attempting ..)
      · omega
    · rw [if_neg hr] at hrefl ⊢
      rw [if_neg hr]
      rcases unused with rfl | ⟨-, hf⟩
      · exact hrefl
      · unfold routeFailure at hrefl ⊢
        rw [if_neg (not_not.mpr hf)] at hrefl ⊢
        rw [if_neg (not_not.mpr hf)]
        exact hrefl

end Same

/-! ## 4. The resumed run -/

section

variable {σ α ρ : Type} {P : Host σ α ρ} {p : Parked σ}

theorem throughTask_eq (h : ∀ cfg, t.config = some cfg → cfg.tools ≠ some []) :
    throughTask t = t := by
  obtain ⟨id, handler, si, pt, ot, print, iv, imb, timeout, rof, config, policies, tools,
    transition⟩ := t
  cases config with
  | none => rfl
  | some cfg =>
    unfold throughTask
    dsimp only [Option.map_some]
    rw [if_neg (h cfg rfl)]

theorem throughRuntime_eq {r : RuntimeAllowlist} (h : r ≠ .listed []) : throughRuntime r = r := by
  unfold throughRuntime
  split
  · exact absurd rfl h
  · rfl

/-- What can be restored survives the encoding. -/
theorem through_checkpointOf (hr : Restorable P c p) :
    P.codec.through (checkpointOf c p) = .ok (checkpointOf c p) := by
  have htasks : c.tasks.map throughTask = c.tasks := by
    rw [List.map_congr_left fun t ht => throughTask_eq (hr.scopes t ht), List.map_id']
  have hvars : P.codec.throughVars (checkpointOf c p).vars = .ok (checkpointOf c p).vars := hr.vars
  have hhist : P.codec.throughVar "history" (.history (checkpointOf c p).history, .chatHistory) =
      .ok (.history (checkpointOf c p).history, .chatHistory) := hr.history
  unfold Codec.through
  rw [hvars, hhist]
  dsimp only [checkpointOf]
  rw [htasks, throughRuntime_eq hr.runtime]

/-- A restorable suspension is resumed at the attempt it left, in the same configuration. -/
theorem suspendAndResume_restorable (hr : Restorable P c p)
    (hval : validateChain P.env.checks c.tasks = none) (hp : Placed c p.task p.mem) :
    P.resume c p =
      .ok (c, ⟨P.decided p,
        { p.mem with output := (.history p.history, .chatHistory) },
        .attempting p.task (.history p.history, .chatHistory) 0⟩) := by
  obtain ⟨acc, hacc, htable⟩ := hr.tools
  have hinput : restoreVars (checkpointOf c p) = p.mem.vars := by
    have hsome : ((checkpointOf c p).vars.lookup "input").isSome = true := hp.input
    unfold restoreVars
    rw [if_pos hsome, List.append_nil]
    rfl
  unfold Host.resume suspendAndResume
  rw [through_checkpointOf hr]
  dsimp only
  unfold resumeRun
  rw [hinput]
  dsimp only [checkpointOf]
  rw [hval, hp.found]
  dsimp only
  rw [hacc]
  dsimp only
  rw [hr.attached, htable, ← hr.noFailure, ← hr.notRecovering]

/-- The states of the resumed run, all of whose suspensions can be restored. -/
structure Restoring (P : Host σ α ρ) (c : RunConfig) (r : Run σ) : Prop where
  valid : validateChain P.env.checks c.tasks = none
  placed : Placed c r.phase.task r.mem
  restores : ∀ s, Relation.ReflTransGen (ResumeStep P c) r s → Restores P c s

variable {r : Run σ} {w : σ} {m : Memory} {o input input₀ : Typed} {task : TaskDefinition}
  {retry : Nat}

theorem Restoring.next (h : Restoring P c r) {r' : Run σ}
    (hstep : step P.env c P.exec r = .next r') : Restoring P c r' := by
  have hmove := step_placed P.env P.exec h.placed
  rw [hstep] at hmove
  cases hmove with
  | next hp => exact ⟨h.valid, hp, fun s hs => h.restores s (.head (.next hstep) hs)⟩

/-- A suspended run is resumed at the attempt it left. -/
theorem Restoring.resume (h : Restoring P c r) (hstep : step P.env c P.exec r = .parked p) :
    let r' : Run σ := ⟨P.decided p,
      { p.mem with output := (.history p.history, .chatHistory) },
      .attempting p.task (.history p.history, .chatHistory) 0⟩
    P.resume c p = .ok (c, r') ∧ Restoring P c r' := by
  intro r'
  have hmove := step_placed P.env P.exec h.placed
  rw [hstep] at hmove
  cases hmove with
  | parked hp =>
    have hr := (h.restores r .refl).restorable p hstep
    have hback := suspendAndResume_restorable hr h.valid hp
    exact ⟨hback, h.valid, ⟨hp.found, hp.input⟩,
      fun s hs => h.restores s (.head (.resume hstep hback) hs)⟩

theorem Restoring.through {r' : Run σ} (h : Restoring P c r) (hthrough : Through P c r (.next r')) :
    Restoring P c r' := by
  generalize hmv : Move.next r' = mv at hthrough
  induction hthrough with
  | now made moved => exact h.next (made.trans hmv.symm)
  | later made back rest ih =>
    obtain ⟨hback, hr⟩ := h.resume made
    cases back.symm.trans hback
    exact ih hr hmv

theorem step_attempting (exec : σ → TaskCall → σ × TaskResult)
    (ht : (if task.timeout = "" then none else P.env.parseDuration task.timeout) = none) :
    step P.env c exec ⟨w, m, .attempting task input retry⟩ =
      afterAttempt P.env c m task input retry (exec w (taskCall P.env c m task input retry)) := by
  unfold step
  dsimp only
  rw [ht]

/-- What an attempt of the run is suspended with. -/
theorem step_waits {w' : σ} {v : Typed} {id e : String}
    (ht : (if task.timeout = "" then none else P.env.parseDuration task.timeout) = none)
    (h : Restoring P c ⟨w, m, .attempting task input retry⟩)
    (hexec : P.exec w (taskCall P.env c m task input retry) = (w', .pending v id e)) :
    ∃ hist, v.1 = .history hist ∧ step P.env c P.exec ⟨w, m, .attempting task input retry⟩ =
      .parked ⟨w', m, task, input, retry, hist, id⟩ := by
  have hcall : taskCall P.env c m task input retry ∈
      callOf P.env c ⟨w, m, .attempting task input retry⟩ := by
    unfold callOf
    dsimp only
    rw [ht]
    exact List.mem_singleton_self _
  obtain ⟨p, hp⟩ := (h.restores _ .refl).saved _ hcall ⟨v, id, e, congrArg Prod.snd hexec⟩
  have hfollows := afterAttempt_spec P.env c m task input retry w' (.pending v id e)
  rw [← hexec, ← step_attempting (P.exec) ht, hp] at hfollows
  cases hfollows with
  | waits transcript => exact ⟨_, transcript, hp⟩

/-- By induction on the calls left open; where the attempt waits, it is entered again. -/
theorem attempting_through
    (ht : (if task.timeout = "" then none else P.env.parseDuration task.timeout) = none)
    (hr : Restoring P c ⟨w, { m with output := o }, .attempting task input retry⟩)
    (unused : input₀ = input ∨ (task.maxRetries = 0 ∧ task.transition.onFailure = "")) :
    ∃ mv, Through P c ⟨w, { m with output := o }, .attempting task input retry⟩ mv ∧
      SameMove (afterAttempt P.env c m task input₀ retry
        (P.waits w (taskCall P.env c m task input retry))) mv := by
  induction hn : (P.exec w (taskCall P.env c m task input retry)).2.left using
    Nat.strong_induction_on generalizing w o input retry with
  | _ n ih =>
  by_cases hwaits : (P.exec w (taskCall P.env c m task input retry)).2.Waits
  · obtain ⟨v, id, e, hres⟩ := hwaits
    have hexec : P.exec w (taskCall P.env c m task input retry) = (_, .pending v id e) :=
      Prod.ext rfl hres
    obtain ⟨hist, hv, hstep⟩ := step_waits ht hr hexec
    have hrest := (hr.restores _ .refl).restorable _ hstep
    obtain rfl : retry = 0 := hrest.firstAttempt
    obtain ⟨hback, hr'⟩ := hr.resume hstep
    obtain ⟨pre, msg, dn, todo, h, rfl, hb, hsame⟩ := hrest.batch
    obtain ⟨v, t⟩ := v
    cases hv
    obtain ⟨heq, hfewer⟩ := execOf_reentered
      (taskCall P.env c m task (.history h, .chatHistory) 0)
      hrest.handler hb hsame hexec hrest.settles hrest.running
    have unused' : input₀ = (.history hist, .chatHistory) ∨
        (task.maxRetries = 0 ∧ task.transition.onFailure = "") := by
      rcases unused with rfl | h
      · exact hrest.input
      · exact .inr h
    obtain ⟨mv, hthrough, hmove⟩ := ih _ (hn ▸ hfewer) hr' unused' rfl
    refine ⟨mv, .later hstep hback hthrough, ?_⟩
    rw [show P.waits w (taskCall P.env c m task (.history h, .chatHistory) 0) = _ from heq.symm]
    exact hmove
  · have hsame : P.waits w (taskCall P.env c m task input retry) = P.exec w _ :=
      execOf_waiting hwaits
    rw [hsame]
    exact ⟨_, .now (step_attempting P.exec ht) (afterAttempt_over hwaits),
      afterAttempt_same hwaits unused⟩

/-- An attempt that waits is matched by one that is entered again. -/
theorem attempt_through
    (hr : Restoring P c ⟨w, { m with output := o }, .attempting task input retry⟩) :
    ∃ mv, Through P c ⟨w, { m with output := o }, .attempting task input retry⟩ mv ∧
      SameMove (step P.env c P.waits ⟨w, m, .attempting task input retry⟩) mv := by
  cases ht : if task.timeout = "" then none else P.env.parseDuration task.timeout with
  | some e =>
    have hstep (exec : σ → TaskCall → σ × TaskResult) (m : Memory) :
        step P.env c exec ⟨w, m, .attempting task input retry⟩ =
          .finished w (.error ("task " ++ task.id ++ ": invalid timeout: " ++ e)) := by
      unfold step
      dsimp only
      rw [ht]
    rw [hstep]
    exact ⟨_, .now (hstep _ _) (fun p h => by cases h), .finished _ _⟩
  | none =>
    rw [step_attempting _ ht]
    exact attempting_through ht hr (.inl rfl)

/-- A step of the waiting run is matched by the resumed one, over its suspensions. -/
theorem step_through {r' : Run σ} (hr : Restoring P c r') (hsame : Same r r') :
    ∃ mv, Through P c r' mv ∧ SameMove (step P.env c P.waits r) mv := by
  cases hsame with
  | attempting w m o task input retry => exact attempt_through hr
  | refl r =>
    obtain ⟨w, m, phase⟩ := r
    cases phase with
    | attempting task input retry => exact attempt_through hr
    | entering task viaFailure =>
      have hover : ∀ p, step P.env c P.exec ⟨w, m, .entering task viaFailure⟩ ≠ .parked p := by
        intro p hp
        have hspec := step_spec P.env c P.exec ⟨w, m, .entering task viaFailure⟩
        rw [hp] at hspec
        cases hspec
      exact ⟨_, .now rfl hover, .of_over hover⟩

/-- By induction on the steps of the waiting run; the two runs stay `Same`. -/
theorem resumedRun_same (n : Nat) {r r' : Run σ} (hr : Restoring P c r') (hsame : Same r r') :
    ∃ k, P.resumedRun k false c r' = P.waitRun c n r := by
  induction n generalizing r r' with
  | zero => exact ⟨0, rfl⟩
  | succ n ih =>
    obtain ⟨mv, hthrough, hmove⟩ := step_through hr hsame
    rw [Host.waitRun, callOf_same hsame]
    generalize step P.env c P.waits r = mv' at hmove
    cases hmove with
    | @next s s' hnext =>
      obtain ⟨k, hk⟩ := ih (hr.through hthrough) hnext
      obtain ⟨k', hk'⟩ := hthrough.resumedRun k false
      refine ⟨k', ?_⟩
      rw [hk', Host.listFrom, hk]
      rfl
    | finished w result =>
      obtain ⟨k, hk⟩ := hthrough.resumedRun n false
      refine ⟨k, ?_⟩
      rw [hk]
      simp [Host.listFrom]

/-- **A resumed run goes on as a waiting one.**  If every approval a run asks for suspends it so
that it can be restored, then whatever the waiting run does in any number of steps the run that
is suspended and resumed does too: it makes the same attempts, each with the same number and
input, and comes to the same result. -/
theorem resumed_run_eq_waitRun {reg₀ : Registry} {c₀ : RunConfig}
    (hstart : startRun P.env reg₀ c₀ w input = .ok (c, r))
    (hall : ∀ s, Relation.ReflTransGen (ResumeStep P c) r s → Restores P c s) (n : Nat) :
    ∃ k, P.resumedRun k false c r = P.waitRun c n r := by
  obtain ⟨hval, hp⟩ := startRun_placed hstart
  exact resumedRun_same n ⟨hval, hp, hall⟩ (.refl r)

end

/-! ## 5. A run that is not restored, and one that is -/

/-- A provider that answers in turn with what the script says. -/
def scriptedExec (script : List (ExecResult String)) (n : Nat) (_ : ToolsCall) (_ : Unit) :
    Nat × ExecResult String :=
  (n + 1, script.getD n (.done "ok"))

/-- A task that may execute the tools of `fs`. -/
def runFs (retries : Int) : TaskDefinition := { runTools retries with config := some ⟨some ["fs"], []⟩ }

def fsConfig (retries : Int) : RunConfig :=
  ⟨"chain", [runFs retries], 0, 4096, 0, .detached, [⟨"fs.read", "fs"⟩]⟩

/-- A transcript that ends in calls with the given ids, and results for some. -/
def fsHistory (ids answered : List String) : ChatHistory :=
  ⟨⟨.assistant, "", "", ids.map fun id => ⟨id, "fs.read", ""⟩⟩ ::
    answered.map fun id => toolMessage id "ok", 0, 0⟩

def fsStart (retries : Int) (h : ChatHistory) : Run Nat :=
  ⟨0, ⟨[("input", (.history h, .chatHistory))], [], (.history h, .chatHistory), none, false⟩,
    .entering (runFs retries) false⟩

/-- A process whose provider answers in turn with what the script says, and that keeps two
transcripts. -/
def fsHost (script : List (ExecResult String)) (h h' : ChatHistory) : Host Nat Unit String :=
  ⟨plainEnv, pairCodec h h', fun _ => fsRegistry, textHandlers (scriptedExec script),
    ⟨fun w _ => w, scriptedExec script⟩⟩

/-- The call ends the first attempt with an error.  In the second attempt, the last one the task
has, it waits for an approval and then fails again, which ends the waiting run; the resumed one
has its attempts back and succeeds. -/
theorem resumed_run_retries_again :
    let h := fsHistory ["a"] []
    let P := fsHost [.ended "" "down", .pending "ask", .ended "" "down"] h h
    startRun plainEnv fsRegistry (fsConfig 1) 0 (.history h, .chatHistory) =
        .ok (fsConfig 1, fsStart 1 h) ∧
      (P.waitRun (fsConfig 1) 8 (fsStart 1 h)).2 =
        some (.error "task run_tools failed after 1 retries: task run_tools: down") ∧
      (P.resumedRun 8 false (fsConfig 1) (fsStart 1 h)).2 =
        some (.ok (.history (fsHistory ["a"] ["a"]), .chatHistory)) := by
  refine ⟨rfl, ?_, ?_⟩
  · rfl
  · rfl

/-- A batch of two calls, the second of which waits for the approval. -/
theorem resumed_run_eq_waitRun_asked :
    let h := fsHistory ["a", "b"] []
    let P := fsHost [.done "ok", .pending "ask"] h (fsHistory ["a", "b"] ["a"])
    ∃ k, P.resumedRun k false (fsConfig 0) (fsStart 0 h) = P.waitRun (fsConfig 0) 8 (fsStart 0 h) ∧
      (P.waitRun (fsConfig 0) 8 (fsStart 0 h)).2 =
        some (.ok (.history (fsHistory ["a", "b"] ["a", "b"]), .chatHistory)) := by
  intro h P
  let m : Memory := (fsStart 0 h).mem
  let s₁ : Run Nat := ⟨0, m, .attempting (runFs 0) (.history h, .chatHistory) 0⟩
  let asked : Parked Nat :=
    ⟨2, m, runFs 0, (.history h, .chatHistory), 0, fsHistory ["a", "b"] ["a"], "ask"⟩
  let s₂ : Run Nat := ⟨2, { m with output := (.history asked.history, .chatHistory) },
    .attempting (runFs 0) (.history asked.history, .chatHistory) 0⟩
  have h₀ : step P.env (fsConfig 0) P.exec (fsStart 0 h) = .next s₁ := rfl
  have h₁ : step P.env (fsConfig 0) P.exec s₁ = .parked asked := rfl
  have h₂ : step P.env (fsConfig 0) P.exec s₂ =
      .finished 3 (.ok (.history (fsHistory ["a", "b"] ["a", "b"]), .chatHistory)) := rfl
  have hback : P.resume (fsConfig 0) asked = .ok (fsConfig 0, s₂) := rfl
  have hreach : ∀ s, Relation.ReflTransGen (ResumeStep P (fsConfig 0)) (fsStart 0 h) s →
      s = fsStart 0 h ∨ s = s₁ ∨ s = s₂ := by
    intro s hs
    induction hs with
    | refl => exact .inl rfl
    | tail _ hstep ih =>
      rcases ih with rfl | rfl | rfl
      · cases hstep with
        | next h => cases h₀.symm.trans h; exact .inr (.inl rfl)
        | resume h => cases h₀.symm.trans h
      · cases hstep with
        | next h => cases h₁.symm.trans h
        | resume h back =>
          cases h₁.symm.trans h
          cases hback.symm.trans back
          exact .inr (.inr rfl)
      · cases hstep with
        | next h | resume h => cases h₂.symm.trans h
  have hopen : OpenBatch [] ⟨.assistant, "", "", [⟨"a", "fs.read", ""⟩, ⟨"b", "fs.read", ""⟩]⟩ []
      [⟨"a", "fs.read", ""⟩, ⟨"b", "fs.read", ""⟩] h :=
    ⟨⟨rfl, by decide, by decide⟩, rfl, by decide, [], rfl, by decide, rfl⟩
  have hrestorable : Restorable P (fsConfig 0) asked := by
    refine ⟨rfl, rfl, rfl, .inr ⟨rfl, rfl⟩, rfl, rfl, by decide, by decide, ⟨_, rfl, rfl⟩, rfl, rfl,
      rfl, ⟨_, _, _, _, _, rfl, hopen, fun _ _ _ _ => rfl⟩, ?_⟩
    exact fun _ _ _ _ => ⟨rfl, fun _ hwaits => by cases hwaits⟩
  have hall : ∀ s, Relation.ReflTransGen (ResumeStep P (fsConfig 0)) (fsStart 0 h) s →
      Restores P (fsConfig 0) s := by
    intro s hs
    rcases hreach s hs with rfl | rfl | rfl
    · refine ⟨fun call hcall => (by cases hcall), fun p hp => ?_⟩
      cases h₀.symm.trans hp
    · refine ⟨fun _ _ _ => ⟨asked, h₁⟩, fun p hp => ?_⟩
      cases h₁.symm.trans hp
      exact hrestorable
    · refine ⟨fun call hcall hwaits => ?_, fun p hp => ?_⟩
      · obtain ⟨v, id, e, hres⟩ := hwaits
        rw [List.mem_singleton.mp hcall] at hres
        cases hres
      · cases h₂.symm.trans hp
  have hstart : startRun plainEnv fsRegistry (fsConfig 0) 0 (.history h, .chatHistory) =
      .ok (fsConfig 0, fsStart 0 h) := rfl
  obtain ⟨k, hk⟩ := resumed_run_eq_waitRun hstart hall 8
  exact ⟨k, hk, rfl⟩

end Contenox.Engine
