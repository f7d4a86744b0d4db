/-
# The interpreter of chains

`ExecEnv` runs a chain task by task.  Before a task it prepares the task's input; it then makes
up to `retry_on_failure + 1` attempts, and routes what comes of them: over a branch on success,
over the `on_failure` edge when the last attempt failed, and out of the loop when a tool call
waits for an approval.

The loop of the source is a STEP here, from one preparation or attempt to the next, on a record
of the loop's variables.  A chain may loop for ever, so a run is a sequence of steps and never a
value.  The executor of tasks is a parameter with a state of its own.
-/
import Contenox.Engine.Chain
import Contenox.Lib.Table

namespace Contenox.Engine

open Lib

/-! ## 1. Values and their types -/

inductive DataType
  | any
  | string
  | int
  | json
  | chatHistory
  | nil
  deriving DecidableEq, Repr

/-- A Go value, as far as the engine looks into it.  `json` is a map, slice or struct, `other` a
value of any further kind. -/
inductive Datum
  | nil
  | str (s : String)
  | int (n : Int)
  | history (h : ChatHistory)
  | json (text : String)
  | other (text : String)
  deriving DecidableEq, Repr

/-- A value with the type it is carried under. -/
abbrev Typed := Datum × DataType

/-- `InferDataType`. -/
def inferDataType : Datum → DataType
  | .nil => .nil
  | .str _ => .string
  | .int _ => .int
  | .history _ => .chatHistory
  | .json _ => .json
  | .other _ => .string

/-- `vars` and `varTypes`, which are always written together. -/
abbrev Vars := List (String × Typed)

def Vars.store (vars : Vars) (name : String) (v : Typed) : Vars :=
  (name, v) :: vars.filter fun p => p.1 ≠ name

@[simp] theorem lookup_store (vars : Vars) (name name' : String) (v : Typed) :
    (vars.store name v).lookup name' = if name' = name then some v else vars.lookup name' :=
  Assoc.lookup_cons_filter vars name name' v

/-! ## 2. What the interpreter is given -/

/-- A call of `TaskExec`: the task with its step macros expanded, its input, the number of the
attempt, and what its context carries.  A recovering run asks for no context length. -/
structure TaskCall where
  task : TaskDefinition
  input : Typed
  retry : Nat
  edgeCounts : List (String × Nat)
  contextLength : Nat
  tokenLimit : Nat
  runtime : RuntimeAllowlist
  tools : List ToolWithResolution
  deriving DecidableEq, Repr

/-- What `TaskExec` returns: an output with its transition value, an error with whatever output
came with it, or the error of a pending approval. -/
inductive TaskResult
  | ok (output : Typed) (eval : String)
  | failed (output : Typed) (err : String)
  | pending (output : Typed) (approvalID err : String)
  deriving DecidableEq, Repr

/-- What becomes of a checkpoint that is to be saved. -/
inductive SaverAnswer
  | saved
  | missing
  | failed (err : String)
  deriving DecidableEq, Repr

/-- The functions on texts and values the interpreter calls, and what it asks of its context. -/
structure EnvOutside (W : Type) where
  renderTemplate : String → Vars → Except String String
  expandStepMacros : String → List (String × Nat) → String
  capTaskInput : Typed → Int → Datum
  ensureFailureContext : Typed → String → String → Datum
  convertToType : Datum → DataType → Option Datum
  sprint : Datum → String
  goType : Datum → String
  parseDuration : String → Option String
  canceled : W → Option String
  saveCheckpoint : W → SaverAnswer
  checks : Checks

/-- What stays fixed over a run: the chain, the attached allowlist and context length, and the
table of the chain's tools. -/
structure RunConfig where
  chainID : String
  tasks : List TaskDefinition
  chainTokenLimit : Nat
  fallbackTokens : Nat
  requestedContext : Nat
  runtime : RuntimeAllowlist
  tools : List ToolWithResolution
  deriving DecidableEq, Repr

/-- The token budget of an attempt: the chain's, a smaller requested one, or the fallback. -/
def RunConfig.tokenLimit (c : RunConfig) : Nat :=
  let limit :=
    if 0 < c.requestedContext ∧ (c.chainTokenLimit = 0 ∨ c.requestedContext < c.chainTokenLimit)
    then c.requestedContext else c.chainTokenLimit
  if limit = 0 then c.fallbackTokens else limit

/-- `NormalizeDataType`. -/
def normalizeDataType {W : Type} (out : EnvOutside W) (v : Typed) : Typed :=
  if v.2 ≠ .any then v
  else
    let inferred := inferDataType v.1
    if inferred = .nil then (.nil, .nil)
    else
      match out.convertToType v.1 inferred with
      | some d => (d, inferred)
      | none => (.str (out.sprint v.1), .string)

/-! ## 3. The variables of the loop -/

/-- The first failure routed over an `on_failure` edge and not yet recovered from. -/
structure RootFailure where
  err : String
  taskID : String
  retries : Nat
  deriving DecidableEq, Repr

structure Memory where
  vars : Vars
  edgeCounts : List (String × Nat)
  output : Typed
  failure : Option RootFailure
  recovering : Bool
  deriving DecidableEq, Repr

/-- Where the loop stands: before a task, entered over a failure edge or not, or at an attempt. -/
inductive Phase
  | entering (task : TaskDefinition) (viaFailure : Bool)
  | attempting (task : TaskDefinition) (input : Typed) (retry : Nat)
  deriving DecidableEq, Repr

structure Run (W : Type) where
  world : W
  mem : Memory
  phase : Phase
  deriving DecidableEq, Repr

/-- A run that waits for an approval: the loop's variables at the attempt, and the transcript the
task returned. -/
structure Parked (W : Type) where
  world : W
  mem : Memory
  task : TaskDefinition
  input : Typed
  retry : Nat
  history : ChatHistory
  approvalID : String
  deriving DecidableEq, Repr

inductive Move (W : Type)
  | next (r : Run W)
  | finished (w : W) (result : Except String Typed)
  | parked (p : Parked W)

/-! ## 4. One step -/

section

variable {W : Type} (out : EnvOutside W) (c : RunConfig) (exec : W → TaskCall → W × TaskResult)
  (w : W) (m : Memory) (task : TaskDefinition)

/-- The input a task is entered with: redirected to a variable, replaced by its rendered prompt,
capped, and, over a failure edge, made to carry the failure. -/
def prepareInput (viaFailure : Bool) : Except String Typed :=
  let routed : Except String Typed :=
    if task.inputVar = "" then .ok m.output
    else
      match m.vars.lookup task.inputVar with
      | some v => .ok v
      | none => .error ("task " ++ task.id ++ ": input variable " ++
          out.checks.quote task.inputVar ++ " not found")
  match routed with
  | .error e => .error e
  | .ok v =>
    let rendered : Except String Typed :=
      if task.promptTemplate = "" then .ok v
      else
        match out.renderTemplate (out.expandStepMacros task.promptTemplate m.edgeCounts) m.vars with
        | .ok text => .ok (.str text, .string)
        | .error e => .error ("task " ++ task.id ++ ": template error: " ++ e)
    match rendered with
    | .error e => .error e
    | .ok v =>
      let capped : Typed := (out.capTaskInput v task.inputMaxBytes, v.2)
      match m.failure with
      | some f =>
        if viaFailure then .ok (out.ensureFailureContext capped f.taskID f.err, capped.2)
        else .ok capped
      | none => .ok capped

/-- The task with its step macros expanded. -/
def stepTask : TaskDefinition :=
  { task with
    systemInstruction := out.expandStepMacros task.systemInstruction m.edgeCounts
    promptTemplate := out.expandStepMacros task.promptTemplate m.edgeCounts
    outputTemplate := out.expandStepMacros task.outputTemplate m.edgeCounts
    print := out.expandStepMacros task.print m.edgeCounts }

/-- The call an attempt makes. -/
def taskCall (input : Typed) (retry : Nat) : TaskCall where
  task := stepTask out m task
  input := input
  retry := retry
  edgeCounts := m.edgeCounts
  contextLength := if m.recovering then 0 else c.requestedContext
  tokenLimit := c.tokenLimit
  runtime := c.runtime
  tools := c.tools

/-- What a failed task hands on: its output where that is a real, typed value, else its input. -/
def failedOutput (input output : Typed) : Typed :=
  let v := if output.1 ≠ .nil ∧ output.2 ≠ .any ∧ output.2 ≠ .nil then output else input
  if v.2 = .any then (v.1, inferDataType v.1) else v

/-- The variables a routed failure leaves. -/
def storeFailure (vars : Vars) (id : String) (v : Typed) (err : String) : Vars :=
  (((vars.store id v).store "previous_output" v).store "last_error" (.str err, .string)).store
    (id ++ "_error") (.str err, .string)

/-- The attempts are used up: over the failure edge, or out of the run. -/
def routeFailure (input output : Typed) (err : String) : Move W :=
  if task.transition.onFailure ≠ "" then
    let v := failedOutput input output
    let m' : Memory :=
      { vars := storeFailure m.vars task.id v err
        edgeCounts := countEdge m.edgeCounts (task.id ++ "->" ++ task.transition.onFailure)
        output := v
        failure := some (m.failure.getD ⟨err, task.id, task.maxRetries⟩)
        recovering := if m.failure.isNone then true else m.recovering }
    match findTaskByID c.tasks task.transition.onFailure with
    | some next => .next ⟨w, m', .entering next true⟩
    | none => .finished w (.error ("error transition target not found: task not found: " ++
        task.transition.onFailure))
  else
    match m.failure with
    | some f => .finished w (.error ("task " ++ f.taskID ++ " failed after " ++
        toString f.retries ++ " retries: " ++ f.err ++ " (on_failure handler also failed: " ++
        err ++ ")"))
    | none => .finished w (.error ("task " ++ task.id ++ " failed after " ++
        toString task.maxRetries ++ " retries: " ++ err))

/-- The attempt succeeded: print, pick a branch, store the output, go on or end. -/
def routeSuccess (output : Typed) (eval : String) : Move W :=
  let printed : Except String Unit :=
    if task.print = "" then .ok ()
    else (out.renderTemplate (out.expandStepMacros task.print m.edgeCounts) m.vars).map fun _ => ()
  match printed with
  | .error e => .finished w (.error ("task " ++ task.id ++ ": print template error: " ++ e))
  | .ok () =>
    match evaluateTransitions task.transition eval m.edgeCounts with
    | .error e => .finished w (.error ("task " ++ task.id ++ ": transition error: " ++ e))
    | .ok next =>
      if next = "" ∨ next = termEnd then .finished w (.ok (normalizeDataType out output))
      else
        let m' : Memory :=
          { m with
            vars := (m.vars.store "previous_output" output).store task.id output
            edgeCounts := countEdge m.edgeCounts (task.id ++ "->" ++ next)
            output := output
            failure := none }
        match findTaskByID c.tasks next with
        | some t => .next ⟨w, m', .entering t false⟩
        | none => .finished w (.error ("next task " ++ next ++ " not found: task not found: " ++
            next))

/-- `suspendRun`: only a transcript can be checkpointed, and only if it can be saved. -/
def suspendRun (input : Typed) (retry : Nat) (output : Typed) (approvalID : String) : Move W :=
  match output.1 with
  | .history h =>
    match out.saveCheckpoint w with
    | .saved => .parked ⟨w, m, task, input, retry, h, approvalID⟩
    | .missing => .finished w (.error ("task " ++ task.id ++ ": approval " ++ approvalID ++
        " is pending but no checkpoint saver is installed on this run, so it cannot suspend " ++
        "durably; install one via taskengine.WithCheckpointSaver (agentservice does), or let " ++
        "the run block on the ask instead of detaching it (taskengine.WithDetachedAsks)"))
    | .failed e => .finished w (.error ("task " ++ task.id ++
        ": persisting the suspension checkpoint for approval " ++ approvalID ++
        " failed (the run cannot suspend durably): " ++ e))
  | d => .finished w (.error ("SEVERBUG: task " ++ task.id ++ " suspended on approval " ++
      approvalID ++ " but produced " ++ out.goType d ++
      " instead of the chat history a checkpoint requires"))

/-- What follows an attempt. -/
def afterAttempt (input : Typed) (retry : Nat) : W × TaskResult → Move W
  | (w, .ok output eval) => routeSuccess out c w m task output eval
  | (w, .failed output err) =>
    if retry < task.maxRetries then .next ⟨w, m, .attempting task input (retry + 1)⟩
    else routeFailure c w m task input output ("task " ++ task.id ++ ": " ++ err)
  | (w, .pending output approvalID _) => suspendRun out w m task input retry output approvalID

/-- One step of the loop. -/
def step (r : Run W) : Move W :=
  match r.phase with
  | .entering task viaFailure =>
    match out.canceled r.world with
    | some e => .finished r.world (.error ("task " ++ task.id ++ ": " ++ e))
    | none =>
      match prepareInput out r.mem task viaFailure with
      | .error e => .finished r.world (.error e)
      | .ok input => .next ⟨r.world, r.mem, .attempting task input 0⟩
  | .attempting task input retry =>
    match if task.timeout = "" then none else out.parseDuration task.timeout with
    | some e => .finished r.world (.error ("task " ++ task.id ++ ": invalid timeout: " ++ e))
    | none =>
      afterAttempt out c r.mem task input retry
        (exec r.world (taskCall out c r.mem task input retry))

/-! ## 5. Everything a step can do -/

/-- The loop's variables after a success that goes on to `next`. -/
def Memory.done (output : Typed) (next : String) : Memory :=
  { m with
    vars := (m.vars.store "previous_output" output).store task.id output
    edgeCounts := countEdge m.edgeCounts (task.id ++ "->" ++ next)
    output := output
    failure := none }

/-- The loop's variables after a failure that is routed. -/
def Memory.failed (v : Typed) (err : String) : Memory where
  vars := storeFailure m.vars task.id v err
  edgeCounts := countEdge m.edgeCounts (task.id ++ "->" ++ task.transition.onFailure)
  output := v
  failure := some (m.failure.getD ⟨err, task.id, task.maxRetries⟩)
  recovering := if m.failure.isNone then true else m.recovering

/-- What can follow an attempt that returned in the world `w`. -/
inductive Follows (m : Memory) (task : TaskDefinition) (input : Typed) (retry : Nat) (w : W) :
    TaskResult → Move W → Prop
  | ends (res : TaskResult) (err : String) :
      Follows m task input retry w res (.finished w (.error err))
  | finishes (output : Typed) (eval : String) : Follows m task input retry w (.ok output eval)
      (.finished w (.ok (normalizeDataType out output)))
  | goesOn {output : Typed} {eval next : String} {t : TaskDefinition}
      (goto : evaluateTransitions task.transition eval m.edgeCounts = .ok next)
      (named : next ≠ "") (going : next ≠ termEnd) (target : findTaskByID c.tasks next = some t) :
      Follows m task input retry w (.ok output eval)
        (.next ⟨w, m.done task output next, .entering t false⟩)
  | retries {output : Typed} {err : String} (left : retry < task.maxRetries) :
      Follows m task input retry w (.failed output err)
        (.next ⟨w, m, .attempting task input (retry + 1)⟩)
  | failsOver {output : Typed} {err : String} {t : TaskDefinition}
      (edge : task.transition.onFailure ≠ "")
      (target : findTaskByID c.tasks task.transition.onFailure = some t) :
      Follows m task input retry w (.failed output err) (.next ⟨w, m.failed task
        (failedOutput input output) ("task " ++ task.id ++ ": " ++ err), .entering t true⟩)
  | waits {output : Typed} {id err : String} {h : ChatHistory} (transcript : output.1 = .history h) :
      Follows m task input retry w (.pending output id err)
        (.parked ⟨w, m, task, input, retry, h, id⟩)

inductive StepSpec : Run W → Move W → Prop
  | ends (r : Run W) (err : String) : StepSpec r (.finished r.world (.error err))
  | enters {w : W} {m : Memory} {task : TaskDefinition} {viaFailure : Bool} {input : Typed}
      (prepared : prepareInput out m task viaFailure = .ok input) :
      StepSpec ⟨w, m, .entering task viaFailure⟩ (.next ⟨w, m, .attempting task input 0⟩)
  | attempts {w w' : W} {m : Memory} {task : TaskDefinition} {input : Typed} {retry : Nat}
      {res : TaskResult} {mv : Move W}
      (made : exec w (taskCall out c m task input retry) = (w', res))
      (follows : Follows out c m task input retry w' res mv) :
      StepSpec ⟨w, m, .attempting task input retry⟩ mv

theorem afterAttempt_spec (input : Typed) (retry : Nat) (w : W) (res : TaskResult) :
    Follows out c m task input retry w res (afterAttempt out c m task input retry (w, res)) := by
  cases res with
  | ok output eval =>
    unfold afterAttempt routeSuccess
    dsimp only
    split
    · exact .ends _ _
    split
    · exact .ends _ _
    next next goto =>
    split
    · exact .finishes _ _
    next hover =>
    split
    · next t target =>
      exact .goesOn goto (fun h => hover (.inl h)) (fun h => hover (.inr h)) target
    · exact .ends _ _
  | failed output err =>
    unfold afterAttempt
    dsimp only
    split
    · next left => exact .retries left
    unfold routeFailure
    dsimp only
    split
    · next edge =>
      split
      · next t target => exact .failsOver edge target
      · exact .ends _ _
    · split
      · exact .ends _ _
      · exact .ends _ _
  | pending output id err =>
    unfold afterAttempt suspendRun
    dsimp only
    split
    · next h transcript =>
      split
      · exact .waits transcript
      · exact .ends _ _
      · exact .ends _ _
    · exact .ends _ _

theorem step_spec (r : Run W) : StepSpec out c exec r (step out c exec r) := by
  obtain ⟨w, m, phase⟩ := r
  cases phase with
  | entering task viaFailure =>
    unfold step
    dsimp only
    split
    · exact .ends _ _
    split
    · exact .ends _ _
    · next input prepared => exact .enters prepared
  | attempting task input retry =>
    unfold step
    dsimp only
    split
    · exact .ends _ _
    · exact .attempts rfl (afterAttempt_spec out c m task input retry _ _)

end

/-! ## 6. The table of tools, and the start of a run -/

/-- What the provider says of the tools of a toolset. -/
inductive ToolsAnswer
  | tools (names : List String)
  | notFound
  | unavailable
  | error (err : String)
  deriving DecidableEq, Repr

/-- The provider's registry: the toolsets it supports, and the tools of one, given the task's
policy and arguments for it. -/
structure Registry where
  supports : Except String (List String)
  getTools : String → List (String × String) → List (String × String) → ToolsAnswer

/-- The table, keyed by namespaced name, and the toolsets found unavailable. -/
structure Collected where
  table : List ToolWithResolution
  unavailable : List String

/-- `filter[name] = tool`: a later tool of the same name takes its place. -/
def putTool (table : List ToolWithResolution) (t : ToolWithResolution) : List ToolWithResolution :=
  table.filter (fun t' => t'.functionName ≠ t.functionName) ++ [t]

def putTools (toolsName : String) : List String → List ToolWithResolution → List ToolWithResolution
  | [], table => table
  | name :: rest, table =>
    putTools toolsName rest (putTool table ⟨toolsName ++ "." ++ name, toolsName⟩)

section Start

variable (reg : Registry) (current : String)

/-- The toolsets of one task. -/
def collectToolsets (task : TaskDefinition) : List String → Collected → Except String Collected
  | [], acc => .ok acc
  | name :: rest, acc =>
    if name ∈ acc.unavailable then collectToolsets task rest acc
    else
      let policy := (task.policies.lookup name).getD []
      let args := match task.tools with
        | some b => if b.name = name then b.args else []
        | none => []
      match reg.getTools name policy args with
      | .notFound => collectToolsets task rest acc
      | .unavailable =>
        collectToolsets task rest { acc with unavailable := name :: acc.unavailable }
      | .error e => .error ("task " ++ current ++ ": failed to get tools for tools " ++ name ++
          ": " ++ e)
      | .tools names => collectToolsets task rest { acc with table := putTools name names acc.table }

/-- The tools of every task's permitted toolsets.  The errors name the task the run starts at. -/
def collectTools (runtime : RuntimeAllowlist) : List TaskDefinition → Collected →
    Except String Collected
  | [], acc => .ok acc
  | task :: rest, acc =>
    match task.config with
    | none => collectTools runtime rest acc
    | some config =>
      match resolveToolsNames runtime (config.tools.getD []) reg.supports with
      | .error e => .error ("task " ++ current ++ ": failed to resolve tools: " ++ e)
      | .ok names =>
        match collectToolsets reg current task names acc with
        | .error e => .error e
        | .ok acc' => collectTools runtime rest acc'

end Start

/-- `ExecEnv` up to its loop: the chain is validated, and the run stands before its first task
with the table of its tools. -/
def startRun {W : Type} (out : EnvOutside W) (reg : Registry) (c : RunConfig) (w : W)
    (input : Typed) : Except String (RunConfig × Run W) :=
  match validateChain out.checks c.tasks with
  | some e => .error e
  | none =>
    match c.tasks with
    | [] => .error "chain has no tasks"
    | first :: _ =>
      match collectTools reg first.id c.runtime c.tasks ⟨[], []⟩ with
      | .error e => .error e
      | .ok acc =>
        .ok ({ c with tools := acc.table },
          ⟨w, ⟨[("input", input)], [], input, none, false⟩, .entering first false⟩)

/-- What a run that has started is. -/
theorem startRun_ok {W : Type} {out : EnvOutside W} {reg : Registry} {c₀ c : RunConfig} {w : W}
    {input : Typed} {r : Run W} (h : startRun out reg c₀ w input = .ok (c, r)) :
    validateChain out.checks c₀.tasks = none ∧ ∃ first rest acc, c₀.tasks = first :: rest ∧
      collectTools reg first.id c₀.runtime c₀.tasks ⟨[], []⟩ = .ok acc ∧
      c = { c₀ with tools := acc.table } ∧
      r = ⟨w, ⟨[("input", input)], [], input, none, false⟩, .entering first false⟩ := by
  unfold startRun at h
  split at h
  · cases h
  next hval =>
  split at h
  · cases h
  next first rest htasks =>
  split at h
  · cases h
  next acc hacc =>
  cases h
  exact ⟨hval, first, rest, acc, htasks, hacc, rfl, rfl⟩

end Contenox.Engine
