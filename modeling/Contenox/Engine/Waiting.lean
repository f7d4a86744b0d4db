/-
# An attempt that waits, and one that is entered again

A call whose approval is pending can be waited for in two ways.  The provider may block until the
verdict is there and then go on with the call, INSIDE the attempt: the provider of a waiting
process (`Outside.waiting`).  Or the attempt ends with the transcript it has reached, and the
task is executed again on that transcript when the verdict is there.

Both come to the same (`execOf_reentered`): entered again, `execute_tool_calls` finds the batch
where it was left and makes the held call again, and after it the two batches go on alike.  Each
time, fewer calls are open.
-/
import Contenox.Engine.Batch
import Contenox.Engine.TaskExec

namespace Contenox.Engine

open Lib

variable {σ α ρ : Type}

/-! ## 1. Waiting inside the attempt -/

/-- How the verdict on an approval comes to a process, and what the call that waited for it then
does. -/
structure Verdicts (σ α ρ : Type) where
  deliver : σ → String → σ
  settle : σ → ToolsCall → α → σ × ExecResult ρ

/-- The provider of a process that waits: a call whose approval is pending is held until the
verdict is delivered. -/
def Outside.waiting (out : Outside σ α ρ) (V : Verdicts σ α ρ) : Outside σ α ρ :=
  { out with exec := fun w call args =>
      match out.exec w call args with
      | (w', .pending id) => V.settle (V.deliver w' id) call args
      | answer => answer }

def Handlers.waiting (hd : Handlers σ α ρ) (V : Verdicts σ α ρ) : Handlers σ α ρ :=
  { hd with outside := fun tools => (hd.outside tools).waiting V }

/-- The executor, without the record of its calls. -/
def execOf (hd : Handlers σ α ρ) (w : σ) (call : TaskCall) : σ × TaskResult :=
  ((taskExec hd (w, []) call).1.1, (taskExec hd (w, []) call).2)

/-- The same call on a transcript. -/
def TaskCall.on (call : TaskCall) (h : ChatHistory) : TaskCall :=
  { call with input := (.history h, .chatHistory) }

def TaskResult.Waits (res : TaskResult) : Prop := ∃ v id e, res = .pending v id e

/-- How many calls a task leaves open that waits. -/
def TaskResult.left : TaskResult → Nat
  | .pending (.history h, _) _ _ => (unansweredToolCalls h.messages).length
  | _ => 0

/-- The call that was held, made again when the verdict is there, does what the blocked one does
with it, and does not ask again. -/
def Settles (out : Outside σ α ρ) (V : Verdicts σ α ρ) (w : σ) (id : String) : Prop :=
  ∀ w₀ call args, out.exec w₀ call args = (w, .pending id) →
    out.exec (V.deliver w id) call args = V.settle (V.deliver w id) call args ∧
      ∀ id', (V.settle (V.deliver w id) call args).2 ≠ .pending id'

/-! ## 2. What a turn is going to do -/

/-- What a turn does with its call, whatever the provider answers. -/
inductive Plan (α : Type)
  | skip
  | refuse (content : String)
  | unparsed (content err : String)
  | abort (err : String)
  | ask (name : String) (call : ToolsCall) (args : α)

def Plan.perform (out : Outside σ α ρ) (b : Batch σ) (tc : ToolCall) : Plan α → Turn σ
  | .skip => .next b
  | .refuse content => .next (b.answer tc.id content)
  | .unparsed content err => .stop { b.answer tc.id content with taskErr := some err }
  | .abort err => .abort b err
  | .ask name call args => handleAnswer out b tc name call (out.exec b.world call args)

/-- It depends on the transcript, on whether the call is answered and on the tool it resolves
to. -/
def plan (out : Outside σ α ρ) (task : ToolTask) (scope : Option (List String))
    (h : ChatHistory) (tc : ToolCall) (old : Bool) : Option ToolWithResolution → Plan α
  | none => if old then .skip else
    .refuse (out.errorContent ("tool " ++ tc.name ++ " not found" ++ out.suggestion tc.name))
  | some t =>
    let name := resolvedName tc t
    if old then .skip
    else if isExecutionToolHidden (executionHiddenTools task.config) name t then
      .refuse (out.errorContent ("tool " ++ name ++ " is hidden for task " ++ task.id))
    else if scope.any fun allowed => !allowed.contains t.toolsName then
      .refuse (out.errorContent ("tool " ++ name ++ " from tools " ++ out.quote t.toolsName ++
        " is not allowed for task " ++ task.id))
    else
      match out.parseArguments tc.arguments with
      | .error e =>
        let msg := "failed to unmarshal tool arguments for " ++ name ++ ": " ++ e
        .unparsed (out.errorContent msg) msg
      | .ok args =>
        match currentTokens out task h with
        | .error e => .abort ("failed to count chat history tokens: " ++ e)
        | .ok tokens => .ask name (toolsCallFor task tc t name tokens) args

def Batch.plan (b : Batch σ) (out : Outside σ α ρ) (task : ToolTask)
    (scope : Option (List String)) (tc : ToolCall) : Plan α :=
  Engine.plan out task scope b.history tc (tc.id ≠ "" ∧ tc.id ∈ b.answered)
    (resolveToolWithResolution (out.table b.world) tc.name)

section

variable {out : Outside σ α ρ} {task : ToolTask} {scope : Option (List String)}
  {V : Verdicts σ α ρ} {b b' b₁ b₂ : Batch σ} {t t' : Turn σ}
  {tc : ToolCall} {id : String} {k : Plan α} {pre : List Message} {m : Message}
  {dn todo : List ToolCall} {h : ChatHistory} {w : σ}

/-- A turn plans, and then performs the plan. -/
theorem turn_eq (out : Outside σ α ρ) (task : ToolTask)
    (scope : Option (List String)) (b : Batch σ) (tc : ToolCall) :
    turn out task scope b tc =
      (b.plan out task scope tc).perform out b tc := by
  unfold turn Batch.plan
  generalize resolveToolWithResolution (out.table b.world) tc.name = tool
  by_cases old : tc.id ≠ "" ∧ tc.id ∈ b.answered
  · rw [if_pos old, decide_eq_true old]
    cases tool with
    | none | some _ => rfl
  rw [if_neg old, decide_eq_false old]
  cases tool with
  | none => rfl
  | some t =>
    unfold plan runCall
    dsimp only
    split
    · rfl
    split
    · rfl
    simp only [Bool.false_eq_true, if_false]
    cases out.parseArguments tc.arguments with
    | error e => rfl
    | ok args =>
      cases currentTokens out task b.history with
      | error e | ok tokens => rfl

theorem waiting_exec_of_not {w : σ} {call : ToolsCall} {args : α}
    (h : ∀ id, (out.exec w call args).2 ≠ .pending id) :
    (out.waiting V).exec w call args = out.exec w call args := by
  unfold Outside.waiting
  dsimp only
  split
  · next id heq => exact absurd (congrArg Prod.snd heq) (h id)
  · rfl

/-- Only a pending answer suspends. -/
theorem handleAnswer_suspend {name : String} {call : ToolsCall} {answer : σ × ExecResult ρ}
    (h : handleAnswer out b tc name call answer = .suspend b' id) :
    answer = (b'.world, .pending id) ∧ b'.history = b.history := by
  obtain ⟨w, res⟩ := answer
  cases res with
  | pending id' =>
    cases h
    exact ⟨rfl, rfl⟩
  | done r | failed r e | ended r e =>
    unfold handleAnswer recordResult at h
    dsimp only at h
    split at h
    · cases h
    · cases h

/-- Only a turn that asks the provider can wait. -/
theorem perform_suspend (h : k.perform out b tc = .suspend b' id) :
    b'.history = b.history ∧ ∃ name call args, k = .ask name call args ∧
      out.exec b.world call args = (b'.world, .pending id) := by
  cases k with
  | skip | refuse _ | unparsed _ _ | abort _ => cases h
  | ask name call args =>
    obtain ⟨hexec, hhist⟩ := handleAnswer_suspend h
    exact ⟨hhist, name, call, args, rfl, hexec⟩

/-- A turn that does not wait is the same for the provider that does. -/
theorem turn_waiting (h : ∀ b' id, turn out task scope b tc ≠ .suspend b' id) :
    turn (out.waiting V) task scope b tc = turn out task scope b tc := by
  rw [turn_eq] at h
  rw [turn_eq, turn_eq]
  change (b.plan out task scope tc).perform (out.waiting V) b tc = _
  generalize b.plan out task scope tc = k at h
  cases k with
  | skip | refuse _ | unparsed _ _ | abort _ => rfl
  | ask name call args =>
    unfold Plan.perform at h ⊢
    dsimp only at h ⊢
    rw [waiting_exec_of_not]
    · rfl
    intro id hid
    generalize out.exec b.world call args = answer at h hid
    obtain ⟨w, res⟩ := answer
    cases hid
    exact h _ _ rfl

/-- Turns that do not suspend are the same with waiting. -/
theorem turns_waiting (h : ∀ b' id, turns out task scope todo b ≠ .suspend b' id) :
    turns (out.waiting V) task scope todo b = turns out task scope todo b := by
  induction todo generalizing b with
  | nil => rfl
  | cons tc todo ih =>
    rw [turns] at h
    rw [turns, turns, turn_waiting fun b' id hb => h b' id (by rw [hb])]
    generalize turn out task scope b tc = t at h
    cases t with
    | next b' => exact ih h
    | stop | suspend | abort => rfl

theorem stubs_waiting (calls : List ToolCall) (b : Batch σ) :
    stubs (out.waiting V) calls b = stubs out calls b := by
  induction calls generalizing b with
  | nil => rfl
  | cons tc calls ih =>
    rw [stubs, stubs]
    split
    · exact ih b
    · exact ih _

theorem finish_waiting (calls : List ToolCall) (b : Batch σ) :
    finish (out.waiting V) calls b = finish out calls b := by
  unfold finish
  rw [stubs_waiting]

/-- A batch that does not wait is worked off alike. -/
theorem executeToolCalls_waiting (hgo : ∀ b id, executeToolCalls out task w h ≠ .suspended b id) :
    executeToolCalls (out.waiting V) task w h =
      executeToolCalls out task w h := by
  have hsupports : (out.waiting V).supports = out.supports := rfl
  unfold executeToolCalls at hgo ⊢
  dsimp only at hgo ⊢
  split
  · rfl
  next hne =>
  rw [if_neg hne] at hgo
  rw [hsupports]
  cases hres : resumableToolCallBatch h.messages with
  | none => rfl
  | some found =>
    rw [hres] at hgo
    dsimp only at hgo ⊢
    cases hscope : executionToolsScope task.runtime out.supports task.config with
    | error e => rfl
    | ok scope =>
      rw [hscope] at hgo
      dsimp only at hgo ⊢
      rw [turns_waiting fun b id hb => hgo b id (by rw [hb])]
      simp only [finish_waiting]

end

/-! ## 3. Batches that go on alike -/

/-- Two batches on one transcript, with the answered calls listed in one way or another. -/
structure Level (b b' : Batch σ) : Prop where
  history : b'.history = b.history
  taskErr : b'.taskErr = b.taskErr
  answered : ∀ id, id ≠ "" → (id ∈ b'.answered ↔ id ∈ b.answered)

/-- The same batch, but for its record. -/
structure Like (b b' : Batch σ) : Prop extends Level b b' where
  world : b'.world = b.world
  executedAny : b'.executedAny = b.executedAny

inductive LikeTurn : Turn σ → Turn σ → Prop
  | next {b b' : Batch σ} (h : Like b b') : LikeTurn (.next b) (.next b')
  | stop {b b' : Batch σ} (h : Like b b') : LikeTurn (.stop b) (.stop b')
  | suspend {b b' : Batch σ} (h : Like b b') (id : String) :
      LikeTurn (.suspend b id) (.suspend b' id)
  | abort {b b' : Batch σ} (h : Like b b') (err : String) : LikeTurn (.abort b err) (.abort b' err)

/-- What is seen of a batch when its task returns. -/
def shown (o : Outcome σ) : σ × TaskResult := (o.batch.world, batchResult o)

section

variable {out : Outside σ α ρ} {task : ToolTask} {scope : Option (List String)}
  {V : Verdicts σ α ρ} {b b' b₁ b₂ : Batch σ} {t t' : Turn σ}
  {tc : ToolCall} {id : String} {pre : List Message} {m : Message}
  {dn todo : List ToolCall} {h : ChatHistory} {w : σ}

theorem Level.answer (h : Level b b') (id content : String) :
    Level (b.answer id content) (b'.answer id content) := by
  refine ⟨?_, h.taskErr, fun id' hne => ?_⟩
  · simp only [Batch.answer, h.history]
  · simp only [Batch.answer, List.mem_cons, h.answered id' hne]

theorem Like.answer (h : Like b b') (id content : String) :
    Like (b.answer id content) (b'.answer id content) :=
  ⟨h.toLevel.answer id content, h.world, h.executedAny⟩

theorem Like.failed (h : Like b b') (err : String) :
    Like { b with taskErr := some err } { b' with taskErr := some err } :=
  { h with taskErr := rfl }

/-- What an answer other than a pending approval makes of the batch does not depend on whether a
call was executed before. -/
theorem handleAnswer_like {answer : σ × ExecResult ρ} (h : Level b b') (tc : ToolCall)
    (name : String) (call : ToolsCall) (hdone : ∀ id, answer.2 ≠ .pending id) :
    LikeTurn (handleAnswer out b tc name call answer) (handleAnswer out b' tc name call answer) := by
  obtain ⟨w, res⟩ := answer
  have hans (content : String) : Like (b.ran tc call w content) (b'.ran tc call w content) :=
    { h.answer tc.id content with world := rfl, executedAny := rfl }
  have hrecord (result : ρ) (err : Option String) :
      LikeTurn (recordResult out b tc name call w result err)
        (recordResult out b' tc name call w result err) := by
    unfold recordResult
    cases out.serialize result with
    | error e => exact .stop ((hans _).failed _)
    | ok content =>
      cases err with
      | none => exact .next (hans _)
      | some e => exact .stop ((hans _).failed e)
  cases res with
  | pending id => exact absurd rfl (hdone id)
  | done r | failed r e | ended r e =>
    unfold handleAnswer
    exact hrecord _ _

theorem Level.plan_eq (h : Level b b')
    (hr : resolveToolWithResolution (out.table b'.world) tc.name =
      resolveToolWithResolution (out.table b.world) tc.name) :
    b'.plan out task scope tc = b.plan out task scope tc := by
  unfold Batch.plan
  rw [h.history, hr]
  simp only [and_congr_right (h.answered tc.id)]

/-- Batches that look alike take the same turn. -/
theorem turn_like (h : Like b b') (tc : ToolCall) :
    LikeTurn (turn out task scope b tc) (turn out task scope b' tc) := by
  rw [turn_eq, turn_eq, h.toLevel.plan_eq (by rw [h.world])]
  cases b.plan out task scope tc with
  | skip => exact .next h
  | refuse content => exact .next (h.answer _ _)
  | unparsed content err => exact .stop ((h.answer _ _).failed _)
  | abort err => exact .abort h _
  | ask name call args =>
    unfold Plan.perform
    dsimp only
    rw [h.world]
    by_cases hwaits : ∃ id, (out.exec b.world call args).2 = .pending id
    · obtain ⟨id, hid⟩ := hwaits
      generalize out.exec b.world call args = answer at hid
      obtain ⟨w, res⟩ := answer
      cases hid
      refine .suspend ?_ id
      exact { h with world := rfl }
    · exact handleAnswer_like h.toLevel tc name call fun id hid => hwaits ⟨id, hid⟩

theorem turns_cons_like (hturn : LikeTurn (turn out task scope b tc)
      (turn out task scope b' tc))
    (hnext : ∀ {b b' : Batch σ}, Like b b' → LikeTurn (turns out task scope todo b)
      (turns out task scope todo b')) :
    LikeTurn (turns out task scope (tc :: todo) b)
      (turns out task scope (tc :: todo) b') := by
  rw [turns, turns]
  generalize turn out task scope b tc = t, turn out task scope b' tc = t'
    at hturn
  cases hturn with
  | next h => exact hnext h
  | stop h => exact .stop h
  | suspend h id => exact .suspend h id
  | abort h err => exact .abort h err

theorem turns_like (h : Like b b') (todo : List ToolCall) :
    LikeTurn (turns out task scope todo b) (turns out task scope todo b') := by
  induction todo generalizing b b' with
  | nil => exact .next h
  | cons tc todo ih => exact turns_cons_like (turn_like h tc) ih

theorem stubs_like (out : Outside σ α ρ) (h : Like b b') (calls : List ToolCall) :
    Like (stubs out calls b) (stubs out calls b') := by
  induction calls generalizing b b' with
  | nil => exact h
  | cons tc calls ih =>
    rw [stubs, stubs]
    by_cases hid : tc.id = ""
    · rw [if_pos (.inl hid), if_pos (.inl hid)]
      exact ih h
    simp only [hid, false_or, h.answered tc.id hid]
    split
    · exact ih h
    · exact ih (h.answer _ _)

/-- They are closed with one result. -/
theorem close_like (h : LikeTurn t t') (calls : List ToolCall) :
    shown (t.close out calls) = shown (t'.close out calls) := by
  cases h with
  | @next b b' h | @stop b b' h =>
    have hs := stubs_like out h calls
    unfold Turn.close finish shown batchResult Outcome.batch
    dsimp only
    rw [hs.world, hs.taskErr, hs.history, h.taskErr, h.executedAny]
  | suspend h id | abort h err =>
    unfold Turn.close shown batchResult Outcome.batch
    dsimp only
    simp only [h.world, h.history]

/-! ## 4. The batch is picked up where it was left -/

/-- The call `tc` is where a batch stops: the calls before it are answered, and it waits. -/
structure StopsAt (out : Outside σ α ρ) (task : ToolTask)
    (pre : List Message) (m : Message) (w : σ) (h : ChatHistory)
    (dn fin : List ToolCall) (tc : ToolCall) (b : Batch σ) (id : String)
    (scope : Option (List String)) (b₁ : Batch σ) : Prop where
  inScope : executionToolsScope task.runtime out.supports task.config = .ok scope
  before : turns out task scope fin ⟨w, h, dn.map (·.id), none, false, []⟩ = .next b₁
  waits : turn out task scope b₁ tc = .suspend b id
  history : b.history = b₁.history
  progress : Progress pre m (dn ++ fin) b₁
  clean : b₁.taskErr = none

theorem turns_append {fin : List ToolCall} (h : turns out task scope fin b = .next b₁)
    (todo : List ToolCall) :
    turns out task scope (fin ++ todo) b = turns out task scope todo b₁ := by
  induction fin generalizing b with
  | nil =>
    cases h
    rfl
  | cons tc fin ih =>
    rw [turns] at h
    rw [List.cons_append, turns]
    generalize turn out task scope b tc = t at h
    cases t with
    | next b' => exact ih h
    | stop | suspend | abort => cases h

/-- Turns that suspend do so at one of their calls. -/
theorem turns_suspend (h : turns out task scope todo b = .suspend b' id) :
    ∃ fin tc rest b₁, todo = fin ++ tc :: rest ∧
      turns out task scope fin b = .next b₁ ∧
      turn out task scope b₁ tc = .suspend b' id := by
  induction todo generalizing b with
  | nil => cases h
  | cons tc todo ih =>
    rw [turns] at h
    cases hturn : turn out task scope b tc with
    | next b₂ =>
      rw [hturn] at h
      obtain ⟨fin, tc', rest, b₁, rfl, hfin, hwaits⟩ := ih h
      refine ⟨tc :: fin, tc', rest, b₁, rfl, ?_, hwaits⟩
      rw [turns, hturn]
      exact hfin
    | stop | abort =>
      rw [hturn] at h
      cases h
    | suspend b₂ id' =>
      rw [hturn] at h
      cases h
      exact ⟨[], tc, todo, b, rfl, rfl, hturn⟩

/-- Turns that go on leave no error, and have come past their calls. -/
theorem turns_next {fin : List ToolCall} (h : turns out task scope fin b = .next b₁)
    (hp : Progress pre m dn b) (hnd : ((dn ++ fin).map (·.id)).Nodup) :
    Progress pre m (dn ++ fin) b₁ ∧ b₁.taskErr = b.taskErr := by
  constructor
  · have hspec := turns_spec out task scope hp hnd
    rw [h] at hspec
    obtain ⟨fin', log, rfl, hprog, -, -, ⟨hb, rfl⟩ | hb | ⟨_, hb, -⟩ | ⟨_, hb⟩⟩ := hspec
    · cases hb
      simpa using hprog
    · cases hb
    · cases hb
    · cases hb
  · clear hp hnd
    induction fin generalizing b with
    | nil =>
      cases h
      rfl
    | cons tc fin ih =>
      rw [turns] at h
      have hcases := turn_cases out task scope b tc
      generalize turn out task scope b tc = t at h hcases
      cases hcases with
      | skipped | refused | ran =>
        have herr := ih h
        exact herr
      | unparsed | aborted | waits | stopped => cases h

theorem stopsAt_of_suspended (hb : OpenBatch pre m dn todo h)
    (hsus : executeToolCalls out task w h = .suspended b id) :
    ∃ fin tc rest scope b₁, todo = fin ++ tc :: rest ∧
      OpenBatch pre m (dn ++ fin) (tc :: rest) b.history ∧
      StopsAt out task pre m w h dn fin tc b id scope b₁ := by
  obtain ⟨e, -, ho⟩ | ⟨scope, hscope, ho⟩ := executeToolCalls_open out task w hb
  · cases ho.symm.trans hsus
  rw [ho] at hsus
  cases hturns : turns out task scope todo ⟨w, h, dn.map (·.id), none, false, []⟩ with
  | next | stop | abort =>
    rw [hturns] at hsus
    cases hsus
  | suspend b' id' =>
    rw [hturns] at hsus
    cases hsus
    obtain ⟨fin, tc, rest, b₁, rfl, hfin, hwaits⟩ := turns_suspend hturns
    have hcalls : m.callTools = (dn ++ fin) ++ tc :: rest := by rw [hb.calls, List.append_assoc]
    have hnd : ((dn ++ fin).map (·.id)).Nodup := by
      have hall := hb.batch.distinct
      rw [hcalls, List.map_append] at hall
      exact (List.nodup_append.mp hall).1
    obtain ⟨hprog, hclean⟩ := turns_next hfin ⟨hb.results, fun _ => Iff.rfl⟩ hnd
    have hhist : b.history = b₁.history := by
      rw [turn_eq] at hwaits
      exact (perform_suspend hwaits).1
    exact ⟨fin, tc, rest, scope, b₁, rfl, ⟨hb.batch, hcalls, by simp, hhist ▸ hprog.history⟩,
      hscope, hfin, hwaits, hhist, hprog, hclean⟩

/-- The batch as the task finds it that is entered again on the transcript of `b`. -/
def Batch.reentered (b : Batch σ) (w : σ) (dn : List ToolCall) : Batch σ :=
  ⟨w, b.history, dn.map (·.id), none, false, []⟩

/-- The held call, made again, goes on as the blocked one does, and does not wait again. -/
theorem turn_reentered {b₂ : Batch σ} (hwaits : turn out task scope b₁ tc = .suspend b id)
    (hlevel : Level b₁ b₂) (hworld : b₂.world = V.deliver b.world id)
    (hres : ∀ w₁ w₂, resolveToolWithResolution (out.table w₁) tc.name =
      resolveToolWithResolution (out.table w₂) tc.name)
    (hset : Settles out V b.world id) :
    LikeTurn (turn (out.waiting V) task scope b₁ tc)
        (turn (out.waiting V) task scope b₂ tc) ∧
      ∀ b' id', turn out task scope b₂ tc ≠ .suspend b' id' := by
  have hplan : b₂.plan out task scope tc = b₁.plan out task scope tc :=
    hlevel.plan_eq (hres _ _)
  rw [turn_eq] at hwaits
  obtain ⟨-, name, call, args, hask, hexec⟩ := perform_suspend hwaits
  obtain ⟨hagain, hdone⟩ := hset _ _ _ hexec
  rw [← hworld] at hagain hdone
  have hheld : (out.waiting V).exec b₁.world call args = V.settle b₂.world call args := by
    unfold Outside.waiting
    dsimp only
    rw [hexec, hworld]
  have hmade : (out.waiting V).exec b₂.world call args = V.settle b₂.world call args :=
    (waiting_exec_of_not (by rwa [hagain])).trans hagain
  constructor
  · rw [turn_eq, turn_eq]
    change LikeTurn ((b₁.plan out task scope tc).perform (out.waiting V) b₁ tc)
      ((b₂.plan out task scope tc).perform (out.waiting V) b₂ tc)
    rw [hplan, hask]
    unfold Plan.perform
    dsimp only
    rw [hheld, hmade]
    exact handleAnswer_like hlevel tc name call hdone
  · rw [turn_eq, hplan, hask]
    unfold Plan.perform
    dsimp only
    rw [hagain]
    exact fun b' id' hsus => hdone id' (congrArg Prod.snd (handleAnswer_suspend hsus).1)

/-- The calls without a result are the open ones. -/
theorem unansweredToolCalls_open (hb : OpenBatch pre m dn todo h) :
    unansweredToolCalls h.messages = todo := by
  obtain ⟨hres, hget⟩ := resumable_of_holdsResults hb.batch.role hb.calls hb.batch.named
    hb.batch.distinct hb.left hb.results
  have hdistinct := hb.batch.distinct
  have hnamed := hb.batch.named
  rw [hb.calls] at hnamed
  rw [hb.calls, List.map_append, List.nodup_append] at hdistinct
  unfold unansweredToolCalls
  rw [hres]
  dsimp only
  rw [hget]
  dsimp only
  rw [hb.calls, List.filter_append, List.filter_eq_nil_iff.mpr, List.filter_eq_self.mpr]
  · rfl
  · intro tc htc
    have hne : tc.id ∉ dn.map (·.id) := fun hmem =>
      hdistinct.2.2 _ hmem _ (List.mem_map_of_mem htc) rfl
    simpa [hnamed tc (by simp [htc])] using hne
  · intro tc htc
    simp [List.mem_map_of_mem htc]

/-- **A batch is picked up where it was left.**  Entered again at the call that was held, the
batch comes to what the waiting one comes to, and leaves fewer calls open. -/
theorem executeToolCalls_reentered (hb : OpenBatch pre m dn todo h)
    (hres : ∀ tc ∈ m.callTools, ∀ w₁ w₂, resolveToolWithResolution (out.table w₁) tc.name =
      resolveToolWithResolution (out.table w₂) tc.name)
    (hsus : executeToolCalls out task w h = .suspended b id)
    (hset : Settles out V b.world id) :
    shown (executeToolCalls (out.waiting V) task (V.deliver b.world id)
        b.history) = shown (executeToolCalls (out.waiting V) task w h) ∧
      (batchResult (executeToolCalls out task (V.deliver b.world id)
        b.history)).left < (unansweredToolCalls b.history.messages).length := by
  obtain ⟨fin, tc, rest, scope, b₁, rfl, hopen, hstop⟩ := stopsAt_of_suspended hb hsus
  have hlevel : Level b₁ (b.reentered (V.deliver b.world id) (dn ++ fin)) :=
    ⟨hstop.history, hstop.clean.symm, fun id _ => (hstop.progress.answered id).symm⟩
  obtain ⟨hlike, hgo⟩ := turn_reentered hstop.waits hlevel rfl (hres tc (by simp [hopen.calls])) hset
  rw [unansweredToolCalls_open hopen]
  constructor
  · have hclose {w : σ} {h : ChatHistory} {dn todo : List ToolCall} (hb : OpenBatch pre m dn todo h) :
        executeToolCalls (out.waiting V) task w h =
          (turns (out.waiting V) task scope todo
            ⟨w, h, dn.map (·.id), none, false, []⟩).close (out.waiting V) m.callTools := by
      obtain ⟨e, he, -⟩ | ⟨scope', hscope, ho⟩ :=
        executeToolCalls_open (out.waiting V) task w hb
      · cases hstop.inScope.symm.trans he
      · cases hstop.inScope.symm.trans hscope
        exact ho
    have hbefore := (turns_waiting (V := V) fun b' id' hb => by
      cases hstop.before.symm.trans hb).trans hstop.before
    rw [hclose hb, hclose hopen, turns_append hbefore]
    exact (close_like (turns_cons_like hlike fun h => turns_like h rest) _).symm
  · generalize ho : executeToolCalls out task _ b.history = o
    cases o with
    | returned b' transition =>
      unfold batchResult
      dsimp only
      split
      · exact Nat.succ_pos _
      · exact Nat.succ_pos _
    | aborted b' e => exact Nat.succ_pos _
    | suspended b' id' =>
      obtain ⟨fin', tc', rest', scope', b₁', hcut, hopen', hstop'⟩ := stopsAt_of_suspended hopen ho
      change (unansweredToolCalls b'.history.messages).length < _
      rw [unansweredToolCalls_open hopen', hcut]
      cases fin' with
      | nil =>
        cases hcut
        cases hstop.inScope.symm.trans hstop'.inScope
        cases hstop'.before
        exact absurd hstop'.waits (hgo b' id')
      | cons _ fin' =>
        simp only [List.length_append, List.length_cons]
        omega

end

/-! ## 5. The handlers -/

section Handlers

variable {hd : Handlers σ α ρ} {V : Verdicts σ α ρ} {w : Recorded σ} {call : TaskCall}
  {h : ChatHistory}

theorem runBatch_waiting {task : TaskDefinition}
    (hdone : ¬ (batchResult (runBatch hd w call task h).2).Waits) :
    runBatch (hd.waiting V) w call task h = runBatch hd w call task h := by
  have hsame : executeToolCalls ((hd.waiting V).outside call.tools) (toolTask call task) w.1 h = _ :=
    executeToolCalls_waiting fun b id hb => hdone ⟨_, _, _, congrArg batchResult hb⟩
  unfold runBatch
  rw [hsame]

/-- A chat task waits while it works off the calls at the end of its transcript. -/
theorem flushThenComplete_waiting (hdone : ¬ (flushThenComplete hd w call h).2.Waits) :
    flushThenComplete (hd.waiting V) w call h = flushThenComplete hd w call h := by
  unfold flushThenComplete at hdone ⊢
  split
  · next hends =>
    rw [if_pos hends] at hdone
    dsimp only at hdone ⊢
    rw [runBatch_waiting]
    · rfl
    rintro ⟨v, id, e, hres⟩
    rw [hres] at hdone
    exact hdone ⟨v, id, e, rfl⟩
  · rfl

theorem toolsTask_waiting (hdone : ¬ (toolsTask hd w call).2.Waits) :
    toolsTask (hd.waiting V) w call = toolsTask hd w call := by
  have hnot : ∀ id, (blockRun hd w call).2 ≠ .pending id := by
    intro id hid
    refine hdone ⟨nothing, id, "", ?_⟩
    unfold blockRun at hid
    unfold toolsTask
    dsimp only
    rw [hid]
  have hrun : blockRun (hd.waiting V) w call = blockRun hd w call := waiting_exec_of_not hnot
  unfold blockRun at hrun
  rw [toolsTask, hrun]
  rfl

/-- A task that does not wait is executed alike. -/
theorem taskExec_waiting (hdone : ¬ (taskExec hd w call).2.Waits) :
    taskExec (hd.waiting V) w call = taskExec hd w call := by
  unfold taskExec handlerExec at hdone ⊢
  rw [show (hd.waiting V).canceled w.1 = hd.canceled w.1 from rfl]
  cases hcan : hd.canceled w.1 with
  | some e => rfl
  | none =>
    rw [hcan] at hdone
    dsimp only at hdone ⊢
    cases hk : call.task.handler with
    | noop | raiseError | route => rfl
    | unknown name =>
      by_cases hname : name = ""
      · rw [hname]
        rfl
      · simp only
    | tools =>
      rw [hk] at hdone
      exact toolsTask_waiting hdone
    | executeToolCalls =>
      rw [hk] at hdone
      dsimp only at hdone ⊢
      unfold execToolCalls at hdone ⊢
      split
      · next h hinput =>
        rw [hinput] at hdone
        dsimp only at hdone ⊢
        rw [runBatch_waiting hdone]
      · rfl
      · rfl
    | chatCompletion =>
      rw [hk] at hdone
      dsimp only at hdone ⊢
      unfold chatCompletion at hdone ⊢
      split
      · rfl
      · next h hinput =>
        rw [hinput] at hdone
        exact flushThenComplete_waiting hdone
      · rfl
      · rfl
      · rfl
      · rfl

theorem execOf_waiting {w : σ} (hdone : ¬ (execOf hd w call).2.Waits) :
    execOf (hd.waiting V) w call = execOf hd w call := by
  unfold execOf
  rw [taskExec_waiting hdone]

/-- An attempt at a batch is the batch worked off. -/
theorem execOf_on {w : σ} (hcan : hd.canceled w = none)
    (handler : call.task.handler = .executeToolCalls) (h : ChatHistory) :
    execOf hd w (call.on h) = shown (executeToolCalls (hd.outside call.tools)
      (toolTask call call.task) w h) := by
  unfold execOf taskExec handlerExec
  dsimp only [TaskCall.on]
  rw [hcan, handler]
  rfl

/-- **Waiting and entering again come to the same.**  Entered again on the transcript it left, an
attempt at a batch comes to what the attempt comes to that waits inside, and leaves fewer calls
open. -/
theorem execOf_reentered {pre : List Message} {m : Message} {dn todo : List ToolCall} {w w' : σ}
    {h' : ChatHistory} {t : DataType} {id e : String} (call : TaskCall)
    (handler : call.task.handler = .executeToolCalls) (hb : OpenBatch pre m dn todo h)
    (hres : ∀ tc ∈ m.callTools, ∀ w₁ w₂,
      resolveToolWithResolution ((hd.outside call.tools).table w₁) tc.name =
        resolveToolWithResolution ((hd.outside call.tools).table w₂) tc.name)
    (hwaits : execOf hd w (call.on h) = (w', .pending (.history h', t) id e))
    (hset : Settles (hd.outside call.tools) V w' id) (hcan : hd.canceled (V.deliver w' id) = none) :
    execOf (hd.waiting V) (V.deliver w' id) (call.on h') = execOf (hd.waiting V) w (call.on h) ∧
      (execOf hd (V.deliver w' id) (call.on h')).2.left < (execOf hd w (call.on h)).2.left := by
  have hcan₀ : hd.canceled w = none := by
    cases hc : hd.canceled w with
    | none => rfl
    | some e' =>
      unfold execOf taskExec at hwaits
      dsimp only at hwaits
      rw [hc] at hwaits
      cases hwaits
  rw [hwaits, execOf_on hcan handler, execOf_on (show (hd.waiting V).canceled _ = none from hcan)
    handler, execOf_on (show (hd.waiting V).canceled _ = none from hcan₀) handler]
  rw [execOf_on hcan₀ handler] at hwaits
  generalize ho : executeToolCalls (hd.outside call.tools) (toolTask call call.task) w h = o at hwaits
  cases o with
  | returned b transition =>
    unfold shown batchResult at hwaits
    dsimp only at hwaits
    split at hwaits
    · cases hwaits
    · cases hwaits
  | aborted b e => cases hwaits
  | suspended b id =>
    cases hwaits
    exact executeToolCalls_reentered hb hres ho hset

end Handlers

end Contenox.Engine
