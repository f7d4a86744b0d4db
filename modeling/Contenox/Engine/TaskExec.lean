/-
# What a task does

`TaskExec` is the executor the interpreter calls: one case for each handler.  Two handlers
execute tools.  `execute_tool_calls` works off the batch of the last assistant message, and a
chat task does the same, inline, when it is handed a transcript that ends in one.  `tools` runs
the one tool its block names.

The model, the provider of tools and the texts they exchange are parameters.  Every call handed
to the provider is put on record, with the task that made it.
-/
import Contenox.Engine.Env

namespace Contenox.Engine

open Lib

/-! ## 1. What the executor is given -/

/-- A call handed to the provider of tools: the task that made it, and whether the task's tools
block names it or a model asked for it. -/
structure ToolEvent where
  task : TaskDefinition
  byBlock : Bool
  call : ToolsCall
  deriving DecidableEq, Repr

structure Handlers (σ α ρ : Type) where
  /-- the surroundings of a batch, over the chain's table of tools -/
  outside : List ToolWithResolution → Outside σ α ρ
  /-- an iteration over the table visits its tools -/
  table_sub : ∀ tools w t, t ∈ (outside tools).table w → t ∈ tools
  canceled : σ → Option String
  /-- a completion: the transcript as it was sent, and the model's answer -/
  complete : σ → TaskCall → ChatHistory → σ × Except String (ChatHistory × Message)
  countHistory : σ → TaskCall → ChatHistory → Option String
  /-- the model's answer to the prompt of a route task -/
  prompt : σ → TaskCall → String → σ × Except String String
  /-- the transcript of a route task, slid to fit -/
  slide : σ → TaskCall → ChatHistory → Except String ChatHistory
  routePrompt : ChatHistory → String
  formatInt : Datum → String
  shift : TaskCall → Bool
  uniqueCallID : σ → String → String
  blockInput : Datum → α
  resultValue : ρ → Typed
  normalize : Typed → Except String Typed
  renderOutput : String → Datum → Except String String
  goType : Datum → String

/-- The state of the executor: the provider's, and the record of calls. -/
abbrev Recorded (σ : Type) := σ × List ToolEvent

def DataType.text : DataType → String
  | .any => "any"
  | .string => "string"
  | .int => "int"
  | .json => "json"
  | .chatHistory => "chat_history"
  | .nil => "nil"

def nothing : Typed := (.nil, .any)

/-! ## 2. Batches -/

section

variable {σ α ρ : Type} (hd : Handlers σ α ρ) (w : Recorded σ) (call : TaskCall)

/-- The executing task, as the handler of batches reads it. -/
def toolTask (call : TaskCall) (t : TaskDefinition) : ToolTask where
  id := t.id
  config := t.config
  policies := t.policies
  toolsArgs := (t.tools.map (·.args)).getD []
  ctxLength := call.tokenLimit
  runtime := call.runtime

/-- A batch of the transcript, worked off by `task`, with its calls put on record. -/
def runBatch (task : TaskDefinition) (h : ChatHistory) : Recorded σ × Outcome σ :=
  let o := executeToolCalls (hd.outside call.tools) (toolTask call task) w.1 h
  ((o.batch.world, w.2 ++ o.batch.calls.map fun c => ⟨task, false, c.1⟩), o)

/-- What `execute_tool_calls` returns.  A batch that is given up returns no output. -/
def batchResult {σ : Type} : Outcome σ → TaskResult
  | .returned b transition =>
    match b.taskErr with
    | none => .ok (.history b.history, .chatHistory) transition
    | some e => .failed (.history b.history, .chatHistory) e
  | .suspended b approvalID => .pending (.history b.history, .chatHistory) approvalID ""
  | .aborted _ e => .failed nothing e

def execToolCalls : Recorded σ × TaskResult :=
  match call.input with
  | (.history h, .chatHistory) =>
    let (w', o) := runBatch hd w call call.task h
    (w', batchResult o)
  | (_, .chatHistory) => (w, .failed call.input "input data is not of type ChatHistory")
  | (_, dt) => (w, .failed call.input ("handler '" ++ call.task.handler.text ++
      "' requires 'chat_history' input, but got '" ++ dt.text ++ "'"))

/-! ## 3. Completions -/

/-- A chat task has a config, if only an empty one. -/
def withConfig (t : TaskDefinition) : TaskDefinition :=
  { t with config := some (t.config.getD ⟨none, []⟩) }

/-- The transcript ends in a message with open calls. -/
def endsInCalls (h : ChatHistory) : Bool :=
  match h.messages.getLast? with
  | some m => m.role = .assistant && !m.callTools.isEmpty
  | none => false

/-- The system instruction is put in front, unless it is there. -/
def withInstruction (instruction : String) (h : ChatHistory) : ChatHistory :=
  if instruction = "" ∨ h.messages.any (fun m => m.role = .system && m.content = instruction) then h
  else { h with messages := ⟨.system, instruction, "", []⟩ :: h.messages, inputTokens := 0 }

/-- The completion itself, on a transcript without open calls. -/
def completeChat (h : ChatHistory) : Recorded σ × TaskResult :=
  match if hd.shift call then none else hd.countHistory w.1 call h with
  | some e => (w, .failed nothing e)
  | none =>
    match hd.complete w.1 call (withInstruction call.task.systemInstruction h) with
    | (s, .error e) => ((s, w.2), .failed nothing e)
    | (s, .ok (sent, answer)) =>
      ((s, w.2), .ok (.history { sent with messages := sent.messages ++ [answer] }, .chatHistory)
        (if answer.callTools.isEmpty then "executed" else "tool_call"))

/-- Open calls at the end of the transcript are worked off before the completion. -/
def flushThenComplete (h : ChatHistory) : Recorded σ × TaskResult :=
  if endsInCalls h then
    let (w', o) := runBatch hd w call (withConfig call.task) h
    match batchResult o with
    | .pending output approvalID err => (w', .pending output approvalID err)
    | .failed _ e => (w', .failed nothing ("guard: failed to flush pending tool calls: " ++ e))
    | .ok (.history h', _) _ => completeChat hd w' call { h' with inputTokens := 0 }
    | .ok _ _ => completeChat hd w' call h
  else completeChat hd w call h

def chatCompletion : Recorded σ × TaskResult :=
  match call.input with
  | (.nil, _) => (w, .failed nothing ("input is nil for task " ++ call.task.id))
  | (.history h, .chatHistory) => flushThenComplete hd w call h
  | (.str s, .string) => completeChat hd w call ⟨[⟨.user, s, "", []⟩], 0, 0⟩
  | (d, .chatHistory) => (w, .failed nothing ("input data for handler " ++ call.task.handler.text ++
      " claimed to be chat_history but was " ++ hd.goType d))
  | (d, .string) => (w, .failed nothing ("input data for handler " ++ call.task.handler.text ++
      " claimed to be string but was " ++ hd.goType d))
  | (_, dt) => (w, .failed nothing ("handler '" ++ call.task.handler.text ++
      "' requires input of type 'chat_history' or 'string', used var: " ++ call.task.inputVar ++
      " but got '" ++ dt.text ++ "'"))

/-! ## 4. The other handlers -/

def getPrompt (call : TaskCall) : Except String String :=
  match call.input with
  | (.str s, .string) => .ok s
  | (_, .string) => .error "SEVERBUG: input is not a string"
  | (d, .int) => .ok (hd.formatInt d)
  | (.history h, .chatHistory) =>
    match h.messages.getLast? with
    | none => .error "SEVERBUG: chat history is empty"
    | some m => .ok m.content
  | (_, .chatHistory) => .error "SEVERBUG: input is not a chat history"
  | (_, dt) => .error ("getPrompt unsupported input type for task " ++ call.task.handler.text ++
      ": " ++ dt.text)

/-- A task that never succeeds. -/
def raiseError : Recorded σ × TaskResult :=
  match getPrompt hd call with
  | .error e => (w, .failed nothing ("failed to get prompt: " ++ e))
  | .ok message => (w, .failed nothing message)

def declaredRoutes (branches : List TransitionBranch) : List String :=
  (branches.filter fun b => b.operator = .equals && GoStrings.trimSpace b.when ≠ "").map (·.when)

/-- `selectRoute`: the route that is the answer, else the first one in it, else the answer. -/
def selectRoute (answer : String) (routes : List String) : String :=
  let chosen := GoStrings.trimSpace answer
  match routes.find? (GoStrings.equalFold chosen ·) with
  | some r => r
  | none =>
    match routes.find? fun r =>
        GoStrings.contains (GoStrings.toLower chosen) (GoStrings.toLower r) with
    | some r => r
    | none => chosen

/-- The input of a route task as it hands it on, and the prompt made of it. -/
def routeInput : Except String (Datum × String) :=
  match call.input with
  | (d, .string) | (d, .int) =>
    match getPrompt hd call with
    | .ok prompt => .ok (d, prompt)
    | .error e => .error ("failed to get prompt: " ++ e)
  | (.history h, .chatHistory) =>
    match if hd.shift call then hd.slide w.1 call h else .ok h with
    | .ok h' => .ok (.history h', hd.routePrompt h')
    | .error e => .error ("route task " ++ call.task.id ++ ": " ++ e)
  | (_, .chatHistory) => .error ("failed to get prompt: route task " ++ call.task.id ++
      ": input is not a chat history")
  | (_, dt) => .error ("getPrompt unsupported input type for task " ++ call.task.handler.text ++
      ": " ++ dt.text)

def routeTask : Recorded σ × TaskResult :=
  let routes := declaredRoutes call.task.transition.branches
  if routes = [] then
    (w, .failed nothing ("route task " ++ call.task.id ++
      " has no equals branches to route between"))
  else
    match routeInput hd w call with
    | .error e => (w, .failed nothing e)
    | .ok (d, prompt) =>
      match hd.prompt w.1 call prompt with
      | (s, .error e) => ((s, w.2), .failed nothing ("route task " ++ call.task.id ++ ": " ++ e))
      | (s, .ok answer) => ((s, w.2), .ok (d, call.input.2) (selectRoute answer routes))

/-- The call of a tools block. -/
def blockCall (s : σ) (t : TaskDefinition) : ToolsCall :=
  let block := t.tools.getD ⟨"", "", []⟩
  { name := block.name
    toolName := block.toolName
    args := block.args
    policy := if t.config.isSome then (t.policies.lookup block.name).getD [] else []
    budgetBytes := 0
    callID := hd.uniqueCallID s t.id }

/-- `toolsengine`, on the provider's result. -/
def blockResult (template : String) (r : ρ) : TaskResult :=
  match hd.normalize (hd.resultValue r) with
  | .error e => .failed nothing e
  | .ok v =>
    if template = "" then .ok v "tools_executed"
    else
      match hd.renderOutput template v.1 with
      | .ok text => .ok (.str text, .string) text
      | .error e => .failed nothing ("failed to render tools output template: " ++ e)

def toolsTask : Recorded σ × TaskResult :=
  let tc := blockCall hd w.1 call.task
  let (s, res) := (hd.outside call.tools).exec w.1 tc (hd.blockInput call.input.1)
  let w' : Recorded σ := (s, w.2 ++ [⟨call.task, true, tc⟩])
  match res with
  | .pending approvalID => (w', .pending nothing approvalID "")
  | .failed _ e | .ended _ e => (w', .failed nothing e)
  | .done r => (w', blockResult hd call.task.outputTemplate r)

/-- The switch over the handlers. -/
def handlerExec : Recorded σ × TaskResult :=
  match call.task.handler with
  | .noop => (w, .ok call.input "noop")
  | .raiseError => raiseError hd w call
  | .route => routeTask hd w call
  | .chatCompletion => chatCompletion hd w call
  | .executeToolCalls => execToolCalls hd w call
  | .tools => toolsTask hd w call
  | .unknown "" => (w, .failed call.input
      "executor does not support the task type: task-type is empty")
  | .unknown name => (w, .failed call.input
      ("unknown task type: executor does not support the task type -- " ++ name))

/-- `TaskExec`. -/
def taskExec : Recorded σ × TaskResult :=
  match hd.canceled w.1 with
  | some e => (w, .failed nothing ("task execution failed: " ++ e))
  | none => handlerExec hd w call

/-! ## 5. Everything a task can do -/

/-- A completion leaves the record alone. -/
inductive ChatSpec (w : Recorded σ) (call : TaskCall) : Recorded σ × TaskResult → Prop
  | refused (e : String) : ChatSpec w call (w, .failed nothing e)
  | failed (h : ChatHistory) (e : String) :
      ChatSpec w call (((hd.complete w.1 call h).1, w.2), .failed nothing e)
  | answered (h h' : ChatHistory) {eval : String} (heval : eval ∈ ["tool_call", "executed"]) :
      ChatSpec w call
        (((hd.complete w.1 call h).1, w.2), .ok (.history h', .chatHistory) eval)

/-- The tool of the task's block has run. -/
def blockRun : σ × ExecResult ρ :=
  (hd.outside call.tools).exec w.1 (blockCall hd w.1 call.task) (hd.blockInput call.input.1)

/-- The state after it, with the call on record. -/
def blockWorld : Recorded σ :=
  ((blockRun hd w call).1, w.2 ++ [⟨call.task, true, blockCall hd w.1 call.task⟩])

inductive TaskExecSpec (w : Recorded σ) (call : TaskCall) : Recorded σ × TaskResult → Prop
  | refused (e : String) : TaskExecSpec w call (w, .failed nothing e)
  | declined (e : String) : TaskExecSpec w call (w, .failed call.input e)
  | noop (handler : call.task.handler = .noop) : TaskExecSpec w call (w, .ok call.input "noop")
  | routeFails (text e : String) :
      TaskExecSpec w call (((hd.prompt w.1 call text).1, w.2), .failed nothing e)
  | routes (handler : call.task.handler = .route) (text eval : String) (d : Datum) :
      TaskExecSpec w call (((hd.prompt w.1 call text).1, w.2), .ok (d, call.input.2) eval)
  | completes {p : Recorded σ × TaskResult} (handler : call.task.handler = .chatCompletion)
      (chat : ChatSpec hd w call p) : TaskExecSpec w call p
  | flushFails (handler : call.task.handler = .chatCompletion) (h : ChatHistory) (e : String) :
      TaskExecSpec w call ((runBatch hd w call (withConfig call.task) h).1, .failed nothing e)
  | flushWaits (handler : call.task.handler = .chatCompletion) {h : ChatHistory} {v : Typed}
      {id e : String} (input : call.input.2 = .chatHistory)
      (result : batchResult (runBatch hd w call (withConfig call.task) h).2 = .pending v id e) :
      TaskExecSpec w call ((runBatch hd w call (withConfig call.task) h).1, .pending v id e)
  | flushes (handler : call.task.handler = .chatCompletion) {h : ChatHistory} {v : Typed}
      {eval : String} {p : Recorded σ × TaskResult}
      (result : batchResult (runBatch hd w call (withConfig call.task) h).2 = .ok v eval)
      (chat : ChatSpec hd (runBatch hd w call (withConfig call.task) h).1 call p) :
      TaskExecSpec w call p
  | batch (handler : call.task.handler = .executeToolCalls) (h : ChatHistory)
      (input : call.input.2 = .chatHistory) : TaskExecSpec w call
        ((runBatch hd w call call.task h).1, batchResult (runBatch hd w call call.task h).2)
  | blockFails (handler : call.task.handler = .tools) (e : String) :
      TaskExecSpec w call (blockWorld hd w call, .failed nothing e)
  | blockWaits (handler : call.task.handler = .tools) {id : String}
      (result : (blockRun hd w call).2 = .pending id) :
      TaskExecSpec w call (blockWorld hd w call, .pending nothing id "")
  | blockRuns (handler : call.task.handler = .tools) {r : ρ}
      (result : (blockRun hd w call).2 = .done r) :
      TaskExecSpec w call (blockWorld hd w call, blockResult hd call.task.outputTemplate r)

theorem completeChat_spec (h : ChatHistory) : ChatSpec hd w call (completeChat hd w call h) := by
  unfold completeChat
  split
  · exact .refused _
  split
  · next s e heq =>
    obtain rfl : (hd.complete w.1 call _).1 = s := by rw [heq]
    exact .failed _ _
  · next s sent answer heq =>
    obtain rfl : (hd.complete w.1 call _).1 = s := by rw [heq]
    refine .answered _ _ ?_
    split
    · simp
    · simp

variable {hd w call}

theorem routeTask_spec (handler : call.task.handler = .route) :
    TaskExecSpec hd w call (routeTask hd w call) := by
  unfold routeTask
  dsimp only
  split
  · exact .refused _
  split
  · exact .refused _
  split
  · next s e heq =>
    obtain rfl : (hd.prompt w.1 call _).1 = s := by rw [heq]
    exact .routeFails _ _
  · next s answer heq =>
    obtain rfl : (hd.prompt w.1 call _).1 = s := by rw [heq]
    exact .routes handler _ _ _

theorem chatCompletion_spec (handler : call.task.handler = .chatCompletion) :
    TaskExecSpec hd w call (chatCompletion hd w call) := by
  unfold chatCompletion
  split
  · exact .refused _
  · next h hinput =>
    unfold flushThenComplete
    split
    · dsimp only
      split
      · next result => exact .flushWaits handler (by rw [hinput]) result
      · exact .flushFails handler h _
      · next result => exact .flushes handler result (completeChat_spec hd _ call _)
      · next result => exact .flushes handler result (completeChat_spec hd _ call _)
    · exact .completes handler (completeChat_spec hd w call _)
  · exact .completes handler (completeChat_spec hd w call _)
  · exact .refused _
  · exact .refused _
  · exact .refused _

theorem toolsTask_spec (handler : call.task.handler = .tools) :
    TaskExecSpec hd w call (toolsTask hd w call) := by
  unfold toolsTask
  dsimp only
  split
  · next result => exact .blockWaits handler result
  · exact .blockFails handler _
  · exact .blockFails handler _
  · next result => exact .blockRuns handler result

theorem taskExec_spec (hd : Handlers σ α ρ) (w : Recorded σ) (call : TaskCall) :
    TaskExecSpec hd w call (taskExec hd w call) := by
  unfold taskExec handlerExec
  split
  · exact .refused _
  split
  · next handler => exact .noop handler
  · unfold raiseError
    split
    · exact .refused _
    · exact .refused _
  · next handler => exact routeTask_spec handler
  · next handler => exact chatCompletion_spec handler
  · next handler =>
    unfold execToolCalls
    split
    · next h hinput => exact .batch handler h (by rw [hinput])
    · exact .declined _
    · exact .declined _
  · next handler => exact toolsTask_spec handler
  · exact .declined _
  · exact .declined _

end

end Contenox.Engine
