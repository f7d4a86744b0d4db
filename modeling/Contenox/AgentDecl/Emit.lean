/-
# From an envelope to a policy

The rules of an emitted policy are tried in order and the first that matches decides, so the ORDER
of emission is the meaning: standing denies, paths, tool patterns, standing allows, missions,
files, and the tiers of the shell.  `transpile` is that order; `EmitPolicy` puts the `[policy]`
block's standing rules in front of the envelope's.
-/
import Contenox.AgentDecl.Config
import Contenox.LocalShell.Args

namespace Contenox.AgentDecl

open Lib Hitl
open Lib.Outcome (ok_of_bind ok_of_mapError)
open LocalShell (localExecToolsName)

/-! ## 1. What is emitted -/

/-- `hitlservice.Policy` with the two blocks that evaluating a call does not read. -/
structure EmittedPolicy extends Policy where
  compute : Option ComputeBounds
  attention : Option AttentionBounds

def localFSToolsName : String := "local_fs"

def missionToolsName : String := "mission"

/-- `axisTools`: the tools an axis stands for. -/
def axisTools : Axis → List (String × String)
  | .filesRead => ["read_file", "read_file_range", "list_dir", "grep", "find_files", "stat_file",
      "count_stats"].map (localFSToolsName, ·)
  | .filesWrite => ["write_file", "edit_file", "sed"].map (localFSToolsName, ·)
  | .shell => [(localExecToolsName, localExecToolsName)]
  | .missionsFire => [(missionToolsName, "mission_start")]
  | .networkRead | .networkWrite | .missionsAnswer => []

/-! ## 2. Rules -/

/-- The operator of a name. -/
def conditionOp (s : String) : ConditionOp :=
  if s = "eq" then .eq
  else if s = "glob" then .glob
  else if s = "host" then .host
  else if s = "command_blacklist" then .commandBlacklist
  else if s = "command_ask_always" then .commandAskAlways
  else if s = "no_command_substitution" then .noCommandSubstitution
  else if s = "command_prefix_allowlist" then .commandPrefixAllowlist
  else .unknown s

/-- The rule a standing rule is emitted as. -/
def StandingRule.rule (r : StandingRule) (action : Action) : Rule where
  tools := r.tools
  tool := r.tool
  when := if r.whenKey ≠ "" then [⟨r.whenKey, conditionOp r.whenOp, r.whenValue⟩] else []
  action := action
  timeoutS := 0
  onTimeout := none

def standingRules (l : List StandingRule) (action : Action) : List Rule := l.map (·.rule action)

/-- A rule with no wait of its own. -/
def bareRule (tool : String × String) (action : Action) (when_ : List Condition) : Rule :=
  ⟨tool.1, tool.2, when_, action, 0, none⟩

/-- `bounded`: the wait of a grant goes to the rules that ask. -/
def AxisGrant.bounded (g : AxisGrant) (r : Rule) : Rule :=
  if r.action ≠ .approve then r
  else { r with
    timeoutS := if g.timeout < 0 then timeoutIndefinite else g.timeout.tdiv second
    onTimeout := g.onTimeout }

section Emit

variable (tx : Texts) (env : Envelope)

def pathRules (axis : Axis) (action : Action) : List Rule :=
  match env.axes.lookup axis with
  | none => []
  | some g =>
    let globs := if action = .approve then g.approvePaths else g.denyPaths
    globs.flatMap fun glob => (axisTools axis).map fun tool =>
      g.bounded (bareRule tool action [⟨"path", .glob, glob.text⟩])

/-- `grantRules`: the floor of an axis. -/
def grantRules (axis : Axis) : List Rule :=
  match env.axes.lookup axis with
  | none => []
  | some g =>
    match g.grant with
    | none => []
    | some action => (axisTools axis).map fun tool => g.bounded (bareRule tool action [])

/-- A list as the value of a condition. -/
def joinItems (l : List (ListItem true)) : String := GoStrings.join "," (l.map (·.text))

/-- A rule of the shell's tiers. -/
def shellRule (g : AxisGrant) (action : Action) (key : String) (op : ConditionOp)
    (value : String) : Rule :=
  g.bounded (bareRule (localExecToolsName, localExecToolsName) action [⟨key, op, value⟩])

/-- The rule of the substitution tier. -/
def substitutionRules (g : AxisGrant) : List Rule :=
  match g.substitution with
  | none | some .off => []
  | some .deny => [shellRule g .deny "args" .noCommandSubstitution ""]
  | some .approve => [shellRule g .approve "args" .noCommandSubstitution ""]

def shellRules : List Rule :=
  match env.axes.lookup .shell with
  | none => []
  | some g =>
    (if g.blacklist = [] then []
      else [shellRule g .deny "command" .commandBlacklist (joinItems g.blacklist)]) ++
    substitutionRules g ++
    (if g.prefixAllowlist = [] then []
      else [shellRule g .allow "command" .commandPrefixAllowlist (joinItems g.prefixAllowlist)]) ++
    (if g.askAlways = [] then []
      else [shellRule g .approve "command" .commandAskAlways (joinItems g.askAlways)]) ++
    grantRules env .shell

/-- An entry of the tools table, read. -/
structure PatternEntry where
  pattern : String
  tools : String
  tool : String
  action : Action
  grant : AxisGrant

def patternEntry (pattern : String) (g : AxisGrant) : Except String PatternEntry :=
  match toolPatternRef tx pattern with
  | .error e => .error e
  | .ok (tools, tool) =>
    match g.grant with
    | none => .error ("tools." ++ pattern ++ ": unknown action " ++ tx.quote "" ++
        " (want allow, approve or deny)")
    | some action => .ok ⟨pattern, tools, tool, action, g⟩

def patternEntries : List String → Except String (List PatternEntry)
  | [] => .ok []
  | pattern :: rest =>
    match env.tools.lookup pattern with
    | none => patternEntries rest
    | some g =>
      match patternEntry tx pattern g with
      | .error e => .error e
      | .ok entry => (patternEntries rest).map (entry :: ·)

def toolPatternSpecificity (e : PatternEntry) : Nat :=
  (if e.tools = "*" then 1 else 0) + if e.tool = "*" then 1 else 0

def actionRank : Action → Nat
  | .deny => 0
  | .approve => 1
  | .allow => 2

/-- The order of the tools table: `a` does not stand after `b`. -/
def patternLe (a b : PatternEntry) : Bool :=
  if toolPatternSpecificity a ≠ toolPatternSpecificity b then
    toolPatternSpecificity a < toolPatternSpecificity b
  else if actionRank a.action ≠ actionRank b.action then actionRank a.action < actionRank b.action
  else a.pattern ≤ b.pattern

def toolPatternRules : Except String (List Rule) :=
  (patternEntries tx env (sortedKeys env.tools)).map fun entries =>
    (entries.insertionSort fun a b => patternLe a b = true).map fun e =>
      e.grant.bounded (bareRule (e.tools, e.tool) e.action [])

/-! ## 3. Blocks -/

def envelopeCompute (block : Doc) : Except String (Option ComputeBounds) :=
  if block = [] then .ok none
  else do
    let maxToolCalls ← blockInt block "max_tool_calls"
    let maxTokens ← blockInt block "max_tokens"
    let maxTurns ← blockInt block "max_turns"
    let onExhausted ← blockString block "on_exhausted"
    let modelAllowlist ← blockStrings block "model_allowlist"
    let backendAllowlist ← blockStrings block "backend_allowlist"
    return some ⟨maxToolCalls, maxTokens, onExhausted, maxTurns, modelAllowlist, backendAllowlist⟩

/-- What `missions.answer` sets: answers, approvals. -/
def answerAxis : Option (Bool × Bool) :=
  match (env.axes.lookup .missionsAnswer).bind (·.grant) with
  | some .allow => some (true, false)
  | some .approve => some (true, true)
  | some .deny | none => none

/-- `attentionBounds` of an envelope. -/
def envelopeAttention : Except String (Option AttentionBounds) :=
  let block := env.attention
  let axis := answerAxis env
  if block = [] ∧ axis.isNone then .ok none
  else do
    let answers ← blockBool block "allow_agent_answers"
    let approvals ← blockBool block "allow_agent_approvals"
    let maxAnswers ← blockInt block "max_agent_answers"
    let maxApprovals ← blockInt block "max_agent_approvals"
    let bounds : AttentionBounds :=
      ⟨answers.getD ((axis.map (·.1)).getD false), maxAnswers,
        approvals.getD ((axis.map (·.2)).getD false), maxApprovals⟩
    let declared := axis.isSome || answers.isSome || approvals.isSome
    return if !declared || (!bounds.allowAgentAnswers && !bounds.allowAgentApprovals) then none
      else some bounds

/-- The hashes of a trusted-binaries block. -/
def trustedHashes (table : Doc) : List String → Except String (List (String × String))
  | [] => .ok []
  | k :: rest =>
    match table.lookup k with
    | none => trustedHashes table rest
    | some (.str s) => (trustedHashes table rest).map ((k, s) :: ·)
    | some v => .error ("trusted_binaries.hashes[" ++ tx.quote k ++ "] must be a string, got " ++
        v.goType)

def envelopeTrustedBinaries (block : Doc) : Except String (Option TrustedBinaries) :=
  if block = [] then .ok none
  else do
    let dirs ← blockStrings block "dirs"
    match block.lookup "hashes" with
    | none => return some ⟨dirs, []⟩
    | some (.table t) => do
      let hashes ← trustedHashes tx t (sortedKeys t)
      return some ⟨dirs, hashes⟩
    | some v =>
      .error ("trusted_binaries.hashes must be a table of path = sha256, got " ++ v.goType)

/-! ## 4. The policy -/

/-- The rules of an envelope, in order; `toolRules` are those of its tools table. -/
def orderedRules (toolRules extraRules : List Rule) : List Rule :=
  standingRules env.alwaysDeny .deny ++
  pathRules env .filesWrite .deny ++
  pathRules env .filesRead .deny ++
  pathRules env .filesRead .approve ++
  pathRules env .filesWrite .approve ++
  toolRules ++
  standingRules env.alwaysAllow .allow ++
  extraRules ++
  grantRules env .missionsFire ++
  grantRules env .filesRead ++
  grantRules env .filesWrite ++
  shellRules env

/-- `transpile`, without the prefix of its errors. -/
def transpileParts (extraRules : List Rule) : Except String EmittedPolicy := do
  let toolRules ← toolPatternRules tx env
  let compute ← envelopeCompute env.compute
  let attention ← envelopeAttention env
  let trusted ← envelopeTrustedBinaries tx env.trustedBinaries
  return { defaultAction := some (env.defaultAction.grant.getD .approve)
           rules := orderedRules env toolRules extraRules
           trustedBinaries := trusted
           compute := compute
           attention := attention }

def transpile (extraRules : List Rule) : Except String EmittedPolicy :=
  (transpileParts tx env extraRules).mapError fun e =>
    "agentdecl: [envelopes." ++ env.name ++ "]: " ++ e

/-- What `EmitPolicy` reads of a declaration. -/
structure AgentIR where
  name : String
  dialect : String
  posture : Posture
  /-- the role is mission or both -/
  runsAsSubagent : Bool
  maxTurns : Option Int
  deriving DecidableEq, Repr

def missionToolRules (ir : AgentIR) : List Rule :=
  if ir.runsAsSubagent then
    ["mission_report", "mission_plan", "mission_ask_attention", "mission_finish"].map fun tool =>
      bareRule (missionToolsName, tool) .allow []
  else []

/-- `computeBounds`: what the `[policy]` block states, narrowed by the declaration. -/
def computeBounds (ir : AgentIR) (cfg : Config) : ComputeBounds :=
  let bounds := cfg.policy.compute
  let declared := match ir.maxTurns with
    | some n => if 0 < n then n else 0
    | none => 0
  { bounds with
    maxToolCalls :=
      if 0 < declared ∧ declared < bounds.maxToolCalls then declared else bounds.maxToolCalls
    maxTurns := if ir.runsAsSubagent ∧ (bounds.maxTurns = 1 ∨ declared = 1) then 1 else 0 }

/-- `attentionBounds` of the `[policy]` block. -/
def attentionBounds (ir : AgentIR) (cfg : Config) : Option AttentionBounds :=
  let a := cfg.policy.attention
  if ir.runsAsSubagent = false then none
  else if !a.allowAgentAnswers && !a.allowAgentApprovals then none
  else some a

/-- The envelope of a posture inside the `[policy]` block. -/
def rooted (cfg : Config) (defaultAction : Action) (env : Envelope) : Envelope :=
  { env with
    alwaysDeny := concatStandingRules cfg.policy.alwaysDeny env.alwaysDeny
    alwaysAllow := concatStandingRules cfg.policy.alwaysAllow env.alwaysAllow
    defaultAction :=
      if env.defaultAction.grant.isNone then { env.defaultAction with grant := some defaultAction }
      else env.defaultAction }

/-- `ErrUnsafePosture`. -/
def unsafePostureError (ir : AgentIR) : String :=
  "agentdecl: " ++ ir.dialect ++ " agent " ++ tx.quote ir.name ++ " asks for permissionMode: " ++
  "bypassPermissions — to skip every approval. contenox will not run an agent that way. Use " ++
  "acceptEdits and grant what it actually needs under [policy.postures] or " ++
  "[[policy.always_allow]] in agents.toml, where the grant is written down"

/-- `EmitPolicy`. -/
def emitPolicy (ir : AgentIR) (cfg : Config) : Except String EmittedPolicy :=
  match cfg.validate with
  | some e => .error e
  | none =>
    if ir.posture = .bypass then .error (unsafePostureError tx ir)
    else
      match parseAction tx cfg.policy.defaultAction with
      | .error e => .error ("agentdecl: policy.default_action: " ++ e)
      | .ok defaultAction =>
        match cfg.postureEnvelope tx ir.posture with
        | .error e => .error e
        | .ok env =>
          match transpile tx (rooted cfg defaultAction env) (missionToolRules ir) with
          | .error e => .error e
          | .ok policy =>
            .ok { policy with
              compute := if env.compute = [] then some (computeBounds ir cfg) else policy.compute
              attention :=
                if env.attention = [] ∧
                    ((env.axes.lookup .missionsAnswer).bind (·.grant)).isNone then
                  attentionBounds ir cfg
                else policy.attention }

variable {tx} {env : Envelope} {p : EmittedPolicy} {extraRules : List Rule}

/-- The rules of a policy that was emitted. -/
theorem transpile_ok (h : transpile tx env extraRules = .ok p) :
    ∃ toolRules, toolPatternRules tx env = .ok toolRules ∧
      p.rules = orderedRules env toolRules extraRules := by
  obtain ⟨toolRules, htools, h⟩ := ok_of_bind (ok_of_mapError h)
  obtain ⟨compute, -, h⟩ := ok_of_bind h
  obtain ⟨attention, -, h⟩ := ok_of_bind h
  obtain ⟨trusted, -, h⟩ := ok_of_bind h
  cases h
  exact ⟨toolRules, htools, rfl⟩

/-- The trust block of a policy that was emitted is the envelope's. -/
theorem transpile_trusted (h : transpile tx env extraRules = .ok p) :
    envelopeTrustedBinaries tx env.trustedBinaries = .ok p.trustedBinaries := by
  obtain ⟨toolRules, -, h⟩ := ok_of_bind (ok_of_mapError h)
  obtain ⟨compute, -, h⟩ := ok_of_bind h
  obtain ⟨attention, -, h⟩ := ok_of_bind h
  obtain ⟨trusted, htrusted, h⟩ := ok_of_bind h
  cases h
  exact htrusted

theorem emitPolicy_ok {ir : AgentIR} {cfg : Config} (h : emitPolicy tx ir cfg = .ok p) :
    ∃ defaultAction env toolRules, cfg.postureEnvelope tx ir.posture = .ok env ∧
      toolPatternRules tx (rooted cfg defaultAction env) = .ok toolRules ∧
      p.rules = orderedRules (rooted cfg defaultAction env) toolRules (missionToolRules ir) := by
  unfold emitPolicy at h
  iterate 3
    split at h
    · cases h
  rename_i defaultAction _
  split at h
  · cases h
  rename_i env henv
  split at h
  · cases h
  rename_i policy hpolicy
  cases h
  obtain ⟨toolRules, htools, hrules⟩ := transpile_ok hpolicy
  exact ⟨defaultAction, env, toolRules, henv, htools, hrules⟩

end Emit

end Contenox.AgentDecl
