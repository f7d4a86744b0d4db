/-
# The chain of one agent

`EmitChain` renders a declaration as five tasks: a turn and its tool calls, a second attempt with
its own tool calls, and a last task that reports.  The two pairs are cycles; what bounds them is a
branch of each turn that counts how often the edge to the tool calls was taken.

The tasks are those of `Engine.Chain`.  What the engine does not look into when it routes a run, the
model and its parameters, is left out of the tasks there and so here.
-/
import Contenox.AgentDecl.Emit
import Contenox.Engine.Chain

namespace Contenox.AgentDecl

open Lib
open Lib.GoStrings
open Engine (TaskDefinition TransitionBranch TaskTransition ExecuteConfig termEnd)

/-! ## 1. What is read of a declaration and a configuration -/

/-- What `EmitChain` reads of a declaration beside what `EmitPolicy` reads. -/
structure Declaration extends AgentIR where
  systemPrompt : String
  /-- the tools of every connected toolset -/
  inherit : Bool
  allow : List String
  deny : List String
  mcpServers : List String
  /-- the sources the agent brings itself, servers first -/
  declaredSources : List String
  deriving DecidableEq, Repr

/-- What `EmitChain` reads of a configuration beside what `EmitPolicy` reads. -/
structure LoopConfig extends Config where
  retryOnFailure : Int
  toolsPolicies : List (String × List (String × String))
  scopeWithDialect : Bool

variable (d : Declaration)

/-- `ScopedName`. -/
def Declaration.scopedName (scopeWithDialect : Bool) : String :=
  if scopeWithDialect then d.dialect ++ "-" ++ d.name else d.name

/-! ## 2. Toolsets -/

def appendToolSet (sets : List String) (name : String) : List String :=
  if name = "" ∨ name ∈ sets then sets else sets ++ [name]

def isScopedToolsetName (name : String) : Bool :=
  hasPrefix name "native-" || hasPrefix name "decl-"

/-- The toolset of a connected tool: a bare name that is one already, or what stands before the
dot. -/
def toolSetOf (tool : String) : Option String :=
  if tool = "*" ∨ (isScopedToolsetName tool ∧ '.' ∉ tool.toList) then some tool
  else if '.' ∈ tool.toList then some (String.ofList (tool.toList.takeWhile (· ≠ '.')))
  else none

/-- `ToolSets`. -/
def toolSets (connected : List String) : List String :=
  (connected.filterMap toolSetOf).foldl (fun out s => if s ∈ out then out else out ++ [s]) []

def sanitizeDeclaredComponent (s : String) : String :=
  String.ofList ((toLower s).toList.map fun c =>
    if ('a' ≤ c ∧ c ≤ 'z') ∨ ('0' ≤ c ∧ c ≤ '9') ∨ c = '-' ∨ c = '_' then c else '-')

/-- `DeclaredToolName`. -/
def declaredToolName (agentID declared : String) : String :=
  "decl-" ++ sanitizeDeclaredComponent agentID ++ "-" ++ sanitizeDeclaredComponent declared

def exposedToolSets (agentID : String) : List String :=
  let sets :=
    if d.inherit then ["*"]
    else
      let sets := toolSets d.allow
      let sets := if d.runsAsSubagent then appendToolSet sets missionToolsName else sets
      d.mcpServers.foldl appendToolSet sets
  (d.declaredSources.map (declaredToolName agentID)).foldl appendToolSet sets

def toolsPoliciesFor (cfg : LoopConfig) : List (String × List (String × String)) :=
  let sets := toolSets d.allow
  let sets := if d.inherit ∨ "*" ∈ sets then sortedKeys cfg.toolsPolicies else sets
  sets.filterMap fun set => (cfg.toolsPolicies.lookup set).map fun knobs => (set, knobs)

/-! ## 3. Tasks -/

def systemInstruction : String :=
  d.systemPrompt ++
    (if d.inherit ∨ d.allow ≠ [] then
      "\n\nAvailable tools (tools -> function names):\n\x7b\x7btools\x7d\x7d"
    else "") ++
    "\n\nHost: os=\x7b\x7bhost:os\x7d\x7d arch=\x7b\x7bhost:arch\x7d\x7d"

def expandLoopMacros (prompt id : String) (cfg : LoopConfig) : String :=
  if prompt = "" then prompt
  else replacer
    [("\x7b\x7brounds_used\x7d\x7d",
        "\x7b\x7bedge_count:" ++ id ++ "-agent->" ++ id ++ "-tools\x7d\x7d"),
      ("\x7b\x7brecovery_rounds_used\x7d\x7d",
        "\x7b\x7bedge_count:" ++ id ++ "-recovery->" ++ id ++ "-recovery-tools\x7d\x7d"),
      ("\x7b\x7bmain_rounds\x7d\x7d", toString cfg.chain.mainRounds),
      ("\x7b\x7brecovery_rounds\x7d\x7d", toString cfg.chain.recoveryRounds)] prompt

/-- `execConfig`, as far as tool calls are concerned. -/
def execConfig (agentID : String) : ExecuteConfig where
  tools := some (exposedToolSets d agentID)
  hideTools := d.deny

/-- A task with everything at its zero value but what is given. -/
def plainTask (id : String) (handler : Engine.TaskHandler) (transition : TaskTransition) :
    TaskDefinition where
  id := id
  handler := handler
  systemInstruction := ""
  promptTemplate := ""
  outputTemplate := ""
  print := ""
  inputVar := ""
  inputMaxBytes := 0
  timeout := ""
  retryOnFailure := 0
  config := none
  policies := []
  tools := none
  transition := transition

/-- A turn: it goes on to its tool calls until it has gone there `rounds` times. -/
def turnTransition (turn tools exhausted : String) (rounds : Int) : TaskTransition where
  onFailure := exhausted
  branches := [
    ⟨.edgeTraversedAtLeast, toString rounds, exhausted, turn ++ "->" ++ tools⟩,
    ⟨.equals, "tool_call", tools, ""⟩,
    ⟨.default, "", termEnd, ""⟩]

/-- The only way on. -/
def alwaysTo (next : String) : TaskTransition := ⟨"", [⟨.default, "", next, ""⟩]⟩

section Emit

variable (d : Declaration) (cfg : LoopConfig) (id : String)

/-- The two tasks of `recoveryPair`. -/
def recoveryPair (terminalID : String) : List TaskDefinition := [
  { plainTask (id ++ "-recovery") .chatCompletion
      (turnTransition (id ++ "-recovery") (id ++ "-recovery-tools") terminalID
        cfg.chain.recoveryRounds) with
    systemInstruction := expandLoopMacros (systemInstruction d) id cfg
    config := some (execConfig d id)
    policies := toolsPoliciesFor d cfg
    inputVar := id ++ "-agent" },
  { plainTask (id ++ "-recovery-tools") .executeToolCalls (alwaysTo (id ++ "-recovery")) with
    config := some (execConfig d id)
    policies := toolsPoliciesFor d cfg
    inputVar := id ++ "-recovery" }]

/-- `leafLoop` with the agent's own declaration for the recovery, as `EmitChain` calls it. -/
def leafLoop (terminalID : String) : List TaskDefinition := [
  { plainTask (id ++ "-agent") .chatCompletion
      (turnTransition (id ++ "-agent") (id ++ "-tools") (id ++ "-recovery")
        cfg.chain.mainRounds) with
    systemInstruction := expandLoopMacros (systemInstruction d) id cfg
    config := some (execConfig d id)
    policies := toolsPoliciesFor d cfg
    retryOnFailure := cfg.retryOnFailure },
  { plainTask (id ++ "-tools") .executeToolCalls (alwaysTo (id ++ "-agent")) with
    config := some (execConfig d id)
    policies := toolsPoliciesFor d cfg
    inputVar := id ++ "-agent" }] ++
  recoveryPair d cfg id terminalID

/-- `terminalTask`; its configuration states no toolsets. -/
def terminalTask (inputVar : String) : TaskDefinition :=
  { plainTask id .chatCompletion (alwaysTo termEnd) with
    systemInstruction := "Current date: \x7b\x7bdate\x7d\x7d.\n\nReport what was attempted and " ++
      "why it could not be completed. Be specific and brief; do not retry."
    config := some ⟨none, []⟩
    inputVar := inputVar }

end Emit

/-- What is emitted. -/
structure ChainDefinition where
  id : String
  tokenLimit : Int
  tasks : List TaskDefinition
  deriving DecidableEq, Repr

def refuseUnsafe : Option String :=
  if d.posture = .bypass then
    some ("agentdecl: " ++ d.name ++ " asks for permissionMode: bypassPermissions — to skip every " ++
      "approval. contenox will not run an agent that way. Use acceptEdits and grant what it " ++
      "actually needs under [policy.postures] or [[policy.always_allow]] in agents.toml, where " ++
      "the grant is written down")
  else none

/-- `EmitChain`. -/
def emitChain (cfg : LoopConfig) : Except String ChainDefinition :=
  match cfg.validate with
  | some e => .error e
  | none =>
    match refuseUnsafe d with
    | some e => .error e
    | none =>
      let id := d.scopedName cfg.scopeWithDialect
      .ok { id := id
            tokenLimit := cfg.chain.tokenLimit
            tasks := leafLoop d cfg id (id ++ "-summarise") ++
              [terminalTask (id ++ "-summarise") (id ++ "-recovery")] }

end Contenox.AgentDecl
