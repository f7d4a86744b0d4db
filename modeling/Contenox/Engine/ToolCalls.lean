/-
# Executing a batch of tool calls

An assistant message carries a BATCH of tool calls.  `execute_tool_calls` runs them in order
and appends one result message for each; a call that cannot run (unknown, hidden, not allowed,
arguments that do not parse) is answered with an error, and after a call that ends the task the
rest are answered with a stub.  One outcome is different: a call whose approval is pending is
NOT answered.  The task returns the history as it stands, and when the run is resumed the
handler derives from that history alone which calls are still open.

The provider of the tools, with the gate in front of it, is a parameter with a state of its own,
so that it may answer a call differently each time it is asked.
-/
import Contenox.Engine.Tools
import Mathlib.Data.List.DropRight

namespace Contenox.Engine

open Lib

variable {σ α ρ : Type}

/-! ## 1. Messages and histories -/

inductive Role
  | system
  | user
  | assistant
  | tool
  | other (name : String)
  deriving DecidableEq, Repr

/-- `ToolCall`, with the name and arguments of its function. -/
structure ToolCall where
  id : String
  name : String
  arguments : String
  deriving DecidableEq, Repr

structure Message where
  role : Role
  content : String
  toolCallID : String
  callTools : List ToolCall
  deriving DecidableEq, Repr

structure ChatHistory where
  messages : List Message
  inputTokens : Nat
  outputTokens : Nat
  deriving DecidableEq, Repr

/-- A result message for the call of an id. -/
def toolMessage (id content : String) : Message := ⟨.tool, content, id, []⟩

def ChatHistory.answer (h : ChatHistory) (id content : String) : ChatHistory :=
  { h with messages := h.messages ++ [toolMessage id content] }

/-- `resumableToolCallBatch`: where the assistant message of an open batch stands, and the ids
its trailing results answer. -/
def resumableToolCallBatch (msgs : List Message) : Option (Nat × List String) :=
  let trailing := msgs.rtakeWhile fun m => m.role = .tool
  let rest := msgs.rdropWhile fun m => m.role = .tool
  let answered := (trailing.map (·.toolCallID)).filter (· ≠ "")
  match rest.getLast? with
  | none => none
  | some m =>
    if m.role ≠ .assistant ∨ m.callTools = [] then none
    else if m.callTools.any fun tc => tc.id = "" || !answered.contains tc.id then
      some (rest.length - 1, answered)
    else none

/-- `unansweredToolCalls`: what a checkpoint lists as pending. -/
def unansweredToolCalls (msgs : List Message) : List ToolCall :=
  match resumableToolCallBatch msgs with
  | none => []
  | some (i, answered) =>
    match msgs[i]? with
    | none => []
    | some m => m.callTools.filter fun tc => tc.id ≠ "" && !answered.contains tc.id

/-! ## 2. The handler -/

/-- `ToolsCall`, with what the context of the call carries: the task's policy for the toolset,
the bytes its result may take, and the id of the call. -/
structure ToolsCall where
  name : String
  toolName : String
  args : List (String × String)
  policy : List (String × String)
  budgetBytes : Nat
  callID : String
  deriving DecidableEq, Repr

/-- What the provider answers: the approval of the call is pending, or a result, with an error
that ends the task (cancellation, a gate record that failed), one that does not, or none. -/
inductive ExecResult (ρ : Type)
  | pending (approvalID : String)
  | done (result : ρ)
  | failed (result : ρ) (err : String)
  | ended (result : ρ) (err : String)

/-- What the handler is given from outside: the provider with its state `σ`, arguments as `α`
and results as `ρ`, and the functions on texts it calls. -/
structure Outside (σ α ρ : Type) where
  exec : σ → ToolsCall → α → σ × ExecResult ρ
  supports : Except String (List String)
  countTokens : ChatHistory → Except String Nat
  parseArguments : String → Except String α
  /-- a result with its value replaced by a text, its type kept -/
  withText : ρ → String → ρ
  serialize : ρ → Except String String
  capContent : String → Nat → String → String
  errorContent : String → String
  quote : String → String
  suggestion : String → String
  /-- the chain's tools, in the order of an iteration made in a state of the provider -/
  table : σ → List ToolWithResolution

/-- The executing task, as the handler reads it, and what its call carries: the token limit and
the allowlist of the run. -/
structure ToolTask where
  id : String
  config : Option ExecuteConfig
  policies : List (String × List (String × String))
  toolsArgs : List (String × String)
  ctxLength : Nat
  runtime : RuntimeAllowlist

/-- The variables of the loop.  `calls` records every call handed to the provider, and whether
it was left pending; the source has no such variable. -/
structure Batch (σ : Type) where
  world : σ
  history : ChatHistory
  answered : List String
  taskErr : Option String
  executedAny : Bool
  calls : List (ToolsCall × Bool)
  deriving DecidableEq

/-- How one turn of the loop ends: it goes on, it breaks, it breaks on a pending approval, or
the handler returns. -/
inductive Turn (σ : Type)
  | next (b : Batch σ)
  | stop (b : Batch σ)
  | suspend (b : Batch σ) (approvalID : String)
  | abort (b : Batch σ) (err : String)

/-- The call is answered with `content`. -/
def Batch.answer {σ : Type} (b : Batch σ) (id content : String) : Batch σ :=
  { b with history := b.history.answer id content, answered := id :: b.answered }

section Handler

variable (out : Outside σ α ρ) (task : ToolTask)

/-- The tokens in use before a call.  They are counted only where the history states none and
the task has a config. -/
def currentTokens (h : ChatHistory) : Except String Nat :=
  if h.inputTokens + h.outputTokens = 0 ∧ task.config.isSome then out.countTokens h
  else .ok (h.inputTokens + h.outputTokens)

/-- The call that is handed to the provider. -/
def toolsCallFor (tc : ToolCall) (t : ToolWithResolution) (name : String) (tokens : Nat) :
    ToolsCall where
  name := t.toolsName
  toolName := trimPrefix name (t.toolsName ++ ".")
  args := task.toolsArgs
  policy := if task.config.isSome then (task.policies.lookup t.toolsName).getD [] else []
  budgetBytes := (task.ctxLength - tokens - 500) * 3
  callID := tc.id

/-- The name a resolved call goes by: that of its tool, where the tool has one. -/
def resolvedName (tc : ToolCall) (t : ToolWithResolution) : String :=
  if t.functionName ≠ "" then t.functionName else tc.name

/-- The provider's answer, turned into a result message. -/
def recordResult (b : Batch σ) (tc : ToolCall) (name : String) (call : ToolsCall) (w : σ)
    (result : ρ) (err : Option String) : Turn σ :=
  let ran : Batch σ :=
    { b with world := w, executedAny := true, calls := b.calls ++ [(call, false)] }
  match out.serialize result with
  | .ok content =>
    let b' := ran.answer tc.id (out.capContent name call.budgetBytes content)
    match err with
    | none => .next b'
    | some e => .stop { b' with taskErr := some e }
  | .error e =>
    let msg := "failed to marshal tool " ++ name ++ " result: " ++ e
    .stop { ran.answer tc.id (out.capContent name call.budgetBytes (out.errorContent msg)) with
      taskErr := some msg }

/-- What the handler makes of the provider's answer. -/
def handleAnswer (b : Batch σ) (tc : ToolCall) (name : String) (call : ToolsCall) :
    σ × ExecResult ρ → Turn σ
  | (w, .pending approvalID) =>
    .suspend { b with world := w, calls := b.calls ++ [(call, true)] } approvalID
  | (w, .done result) => recordResult out b tc name call w result none
  | (w, .failed result err) =>
    recordResult out b tc name call w
      (out.withText result ("tool " ++ name ++ " execution failed: " ++ err)) none
  | (w, .ended result err) => recordResult out b tc name call w result (some err)

/-- A call that resolved, is not hidden and is in scope. -/
def runCall (b : Batch σ) (tc : ToolCall) (t : ToolWithResolution) (name : String) : Turn σ :=
  match out.parseArguments tc.arguments with
  | .error e =>
    let msg := "failed to unmarshal tool arguments for " ++ name ++ ": " ++ e
    .stop { b.answer tc.id (out.errorContent msg) with taskErr := some msg }
  | .ok args =>
    match currentTokens out task b.history with
    | .error e => .abort b ("failed to count chat history tokens: " ++ e)
    | .ok tokens =>
      let call := toolsCallFor task tc t name tokens
      handleAnswer out b tc name call (out.exec b.world call args)

/-- One turn of the loop over the batch's calls. -/
def turn (scope : Option (List String)) (b : Batch σ) (tc : ToolCall) : Turn σ :=
  if tc.id ≠ "" ∧ tc.id ∈ b.answered then .next b
  else
    match resolveToolWithResolution (out.table b.world) tc.name with
    | none =>
      .next (b.answer tc.id
        (out.errorContent ("tool " ++ tc.name ++ " not found" ++ out.suggestion tc.name)))
    | some t =>
      let name := resolvedName tc t
      if isExecutionToolHidden (executionHiddenTools task.config) name t then
        .next (b.answer tc.id
          (out.errorContent ("tool " ++ name ++ " is hidden for task " ++ task.id)))
      else if scope.any fun allowed => !allowed.contains t.toolsName then
        .next (b.answer tc.id (out.errorContent ("tool " ++ name ++ " from tools " ++
          out.quote t.toolsName ++ " is not allowed for task " ++ task.id)))
      else runCall out task b tc t name

/-- The loop: it leaves off at the first turn that does not go on. -/
def turns (scope : Option (List String)) : List ToolCall → Batch σ → Turn σ
  | [], b => .next b
  | tc :: rest, b =>
    match turn out task scope b tc with
    | .next b' => turns scope rest b'
    | ended => ended

def interruptedToolCallResult : String :=
  "tool call was interrupted before a result was recorded"

/-- Every call without a result gets a stub. -/
def stubs : List ToolCall → Batch σ → Batch σ
  | [], b => b
  | tc :: rest, b =>
    if tc.id = "" ∨ tc.id ∈ b.answered then stubs rest b
    else stubs rest (b.answer tc.id (out.errorContent interruptedToolCallResult))

/-- How the task ends: with a history and a transition (the batch may hold an error), suspended
on an approval, or with an error before the batch was worked off. -/
inductive Outcome (σ : Type)
  | returned (b : Batch σ) (transition : String)
  | suspended (b : Batch σ) (approvalID : String)
  | aborted (b : Batch σ) (err : String)
  deriving DecidableEq

def Outcome.batch {σ : Type} : Outcome σ → Batch σ
  | .returned b _ | .suspended b _ | .aborted b _ => b

/-- The end of a batch that no approval holds up: stubs, then the transition. -/
def finish (calls : List ToolCall) (b : Batch σ) : Outcome σ :=
  let b' := stubs out calls b
  .returned b'
    (if b.taskErr.isSome then "failed"
     else if b.executedAny then "tools_executed" else "no_calls_found")

/-- `TaskExec` for the handler `execute_tool_calls`, on a chat history. -/
def executeToolCalls (w : σ) (h : ChatHistory) : Outcome σ :=
  let start : Batch σ := ⟨w, h, [], none, false, []⟩
  if h.messages = [] then .returned start "noop"
  else
    match resumableToolCallBatch h.messages with
    | none => .returned start "no_calls_found"
    | some (i, preAnswered) =>
      let calls := ((h.messages[i]?).map (·.callTools)).getD []
      match executionToolsScope task.runtime out.supports task.config with
      | .error e => .aborted start ("failed to resolve execution tools scope: " ++ e)
      | .ok scope =>
        match turns out task scope calls { start with answered := preAnswered } with
        | .next b | .stop b => finish out calls b
        | .suspend b approvalID => .suspended b approvalID
        | .abort b e => .aborted b e

/-- How the task ends after its loop. -/
def Turn.close (calls : List ToolCall) : Turn σ → Outcome σ
  | .next b | .stop b => finish out calls b
  | .suspend b approvalID => .suspended b approvalID
  | .abort b e => .aborted b e

end Handler

/-! ## 3. Everything a turn can do -/

section

variable (out : Outside σ α ρ) (task : ToolTask) (scope : Option (List String))

/-- A call that may be handed to the provider for `tc`: it is for a tool of the chain's table
that the task does not hide and that is in the task's scope, where it has one. -/
structure Admitted (w : σ) (tc : ToolCall) (call : ToolsCall) : Prop where
  callID : call.callID = tc.id
  tool : ∃ t ∈ out.table w, call.name = t.toolsName ∧
    call.toolName = trimPrefix (resolvedName tc t) (t.toolsName ++ ".") ∧
    isExecutionToolHidden (executionHiddenTools task.config) (resolvedName tc t) t = false ∧
    ∀ allowed, scope = some allowed → t.toolsName ∈ allowed

/-- The turn answered `tc`, and handed at most one call to the provider, which was not left
pending. -/
structure Answers (b : Batch σ) (tc : ToolCall) (b' : Batch σ) : Prop where
  history : ∃ content, b'.history = b.history.answer tc.id content
  answered : b'.answered = tc.id :: b.answered
  calls : b'.calls = b.calls ∨
    ∃ call, Admitted out task scope b.world tc call ∧ b'.calls = b.calls ++ [(call, false)]

inductive TurnSpec (b : Batch σ) (tc : ToolCall) : Turn σ → Prop
  | skip (old : tc.id ≠ "" ∧ tc.id ∈ b.answered) : TurnSpec b tc (.next b)
  | next {b' : Batch σ} (new : ¬ (tc.id ≠ "" ∧ tc.id ∈ b.answered))
      (ans : Answers out task scope b tc b') : TurnSpec b tc (.next b')
  | stop {b' : Batch σ} (new : ¬ (tc.id ≠ "" ∧ tc.id ∈ b.answered))
      (ans : Answers out task scope b tc b') : TurnSpec b tc (.stop b')
  | suspend {w : σ} {call : ToolsCall} {approvalID : String}
      (new : ¬ (tc.id ≠ "" ∧ tc.id ∈ b.answered))
      (adm : Admitted out task scope b.world tc call) :
      TurnSpec b tc (.suspend { b with world := w, calls := b.calls ++ [(call, true)] } approvalID)
  | abort {err : String} (new : ¬ (tc.id ≠ "" ∧ tc.id ∈ b.answered)) :
      TurnSpec b tc (.abort b err)

/-- The batch after the provider has answered `call` in the state `w`. -/
def Batch.ran (b : Batch σ) (tc : ToolCall) (call : ToolsCall) (w : σ) (content : String) :
    Batch σ :=
  { b with world := w, executedAny := true, calls := b.calls ++ [(call, false)] }.answer tc.id content

/-- A turn, with what the provider was asked in it and answered. -/
inductive TurnCases (b : Batch σ) (tc : ToolCall) : Turn σ → Prop
  | skipped (old : tc.id ≠ "" ∧ tc.id ∈ b.answered) : TurnCases b tc (.next b)
  | refused (content : String) : TurnCases b tc (.next (b.answer tc.id content))
  | unparsed (content err : String) :
      TurnCases b tc (.stop { b.answer tc.id content with taskErr := some err })
  | aborted (err : String) : TurnCases b tc (.abort b err)
  | waits {call : ToolsCall} {args : α} {w : σ} {id : String}
      (adm : Admitted out task scope b.world tc call)
      (made : out.exec b.world call args = (w, .pending id)) : TurnCases b tc
        (.suspend { b with world := w, calls := b.calls ++ [(call, true)] } id)
  | ran {call : ToolsCall} {args : α} {w : σ} {res : ExecResult ρ}
      (adm : Admitted out task scope b.world tc call)
      (made : out.exec b.world call args = (w, res))
      (answer : (∃ r, res = .done r ∧ (out.serialize r).isOk) ∨ ∃ r e, res = .failed r e)
      (content : String) : TurnCases b tc (.next (b.ran tc call w content))
  | stopped {call : ToolsCall} {args : α} {w : σ} {res : ExecResult ρ}
      (adm : Admitted out task scope b.world tc call)
      (made : out.exec b.world call args = (w, res)) (waits : ∀ id, res ≠ .pending id)
      (unread : ∀ r, res = .done r → (out.serialize r).isOk = false) (content err : String) :
      TurnCases b tc (.stop { b.ran tc call w content with taskErr := some err })

/-- A batch that is not worked off, and one that is. -/
inductive BatchCases (w : σ) (h : ChatHistory) : Outcome σ → Prop
  | idle {transition : String} (among : transition ∈ ["noop", "no_calls_found"]) :
      BatchCases w h (.returned ⟨w, h, [], none, false, []⟩ transition)
  | unscoped (e : String) : BatchCases w h (.aborted ⟨w, h, [], none, false, []⟩ e)
  | worked {scope : Option (List String)}
      (hscope : executionToolsScope task.runtime out.supports task.config = .ok scope)
      (calls : List ToolCall) (answered : List String) : BatchCases w h
        ((turns out task scope calls ⟨w, h, answered, none, false, []⟩).close out calls)

variable {out task scope} {b : Batch σ} {tc : ToolCall}

theorem runCall_cases {t : ToolWithResolution}
    (adm : ∀ tokens, Admitted out task scope b.world tc
      (toolsCallFor task tc t (resolvedName tc t) tokens)) :
    TurnCases out task scope b tc (runCall out task b tc t (resolvedName tc t)) := by
  unfold runCall
  split
  · exact .unparsed _ _
  split
  · exact .aborted _
  next tokens _ =>
  dsimp only
  unfold handleAnswer recordResult
  split
  · next made => exact .waits (adm tokens) made
  · next result made =>
    split
    · next hs => exact .ran (adm tokens) made (.inl ⟨result, rfl, by rw [hs]; rfl⟩) _
    · next hs =>
      refine .stopped (adm tokens) made (by simp) ?_ _ _
      rintro r ⟨⟩
      rw [hs]
      rfl
  · next result err made =>
    split
    · exact .ran (adm tokens) made (.inr ⟨result, err, rfl⟩) _
    · exact .stopped (adm tokens) made (by simp) (by simp) _ _
  · next made =>
    split
    · exact .stopped (adm tokens) made (by simp) (by simp) _ _
    · exact .stopped (adm tokens) made (by simp) (by simp) _ _

theorem turn_cases (out : Outside σ α ρ) (task : ToolTask) (scope : Option (List String))
    (b : Batch σ) (tc : ToolCall) : TurnCases out task scope b tc (turn out task scope b tc) := by
  unfold turn
  split
  · next old => exact .skipped old
  split
  · exact .refused _
  next t hres =>
  dsimp only
  split
  · exact .refused _
  next hhid =>
  split
  · exact .refused _
  next hscope =>
  refine runCall_cases fun tokens => ⟨rfl, t, mem_of_resolveToolWithResolution hres,
    rfl, rfl, by simpa using hhid, ?_⟩
  rintro allowed rfl
  simpa using hscope

theorem turn_spec (out : Outside σ α ρ) (task : ToolTask) (scope : Option (List String))
    (b : Batch σ) (tc : ToolCall) : TurnSpec out task scope b tc (turn out task scope b tc) := by
  by_cases new : tc.id ≠ "" ∧ tc.id ∈ b.answered
  · rw [turn, if_pos new]
    exact .skip new
  have hcases := turn_cases out task scope b tc
  generalize turn out task scope b tc = t at hcases
  cases hcases with
  | skipped old => exact absurd old new
  | refused => exact .next new ⟨⟨_, rfl⟩, rfl, .inl rfl⟩
  | unparsed => exact .stop new ⟨⟨_, rfl⟩, rfl, .inl rfl⟩
  | aborted => exact .abort new
  | waits adm => exact .suspend new adm
  | ran adm => exact .next new ⟨⟨_, rfl⟩, rfl, .inr ⟨_, adm, rfl⟩⟩
  | stopped adm => exact .stop new ⟨⟨_, rfl⟩, rfl, .inr ⟨_, adm, rfl⟩⟩

theorem executeToolCalls_cases (out : Outside σ α ρ) (task : ToolTask) (w : σ) (h : ChatHistory) :
    BatchCases out task w h (executeToolCalls out task w h) := by
  unfold executeToolCalls
  dsimp only
  split
  · exact .idle (by simp)
  split
  · exact .idle (by simp)
  next i answered _ =>
  split
  · exact .unscoped _
  next scope hscope =>
  have hworked : BatchCases out task w h _ :=
    .worked hscope (((h.messages[i]?).map (·.callTools)).getD []) answered
  generalize turns out task scope _ _ = t at hworked ⊢
  cases t with
  | next | stop | suspend | abort => exact hworked

end

end Contenox.Engine
