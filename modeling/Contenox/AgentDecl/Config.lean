/-
# agents.toml

`Config` is what the layers of `agents.toml` come to, as far as a policy is made of it.  `For`
lays the section of one agent over it: the section is written out as TOML and decoded onto a copy
of the configuration in which everything that must be MERGED was emptied first, and is then merged
with what was emptied.  Standing rules of the `[policy]` block are appended to the root's; the
envelopes of the section are merged into the root's envelopes key by key.
-/
import Contenox.AgentDecl.Envelopes

namespace Contenox.AgentDecl

open Lib Hitl

/-! ## 1. The configuration -/

structure ChainDefaults where
  tokenLimit : Int
  mainRounds : Int
  recoveryRounds : Int
  deriving DecidableEq, Repr

/-- `ComputeDefaults`, and the `ComputeBounds` that are emitted. -/
structure ComputeBounds where
  maxToolCalls : Int
  maxTokens : Int
  onExhausted : String
  maxTurns : Int
  modelAllowlist : List String
  backendAllowlist : List String
  deriving DecidableEq, Repr

/-- `AttentionDefaults`, and the `AttentionBounds` that are emitted. -/
structure AttentionBounds where
  allowAgentAnswers : Bool
  maxAgentAnswers : Int
  allowAgentApprovals : Bool
  maxAgentApprovals : Int
  deriving DecidableEq, Repr

structure PostureGrants where
  localFSRead : String
  localFSWrite : String
  localShell : String
  deriving DecidableEq, Repr

structure PolicyDefaults where
  defaultAction : String
  compute : ComputeBounds
  attention : AttentionBounds
  alwaysDeny : List StandingRule
  alwaysAllow : List StandingRule
  postures : List (String × PostureGrants)
  deriving DecidableEq, Repr

structure Config where
  chain : ChainDefaults
  policy : PolicyDefaults
  envelopes : List (String × Doc)
  agents : List (String × Doc)

/-- The permission setting of a declaration. -/
inductive Posture
  | readOnly
  | askAlways
  | autoEdit
  | bypass
  deriving DecidableEq, Repr

def Posture.text : Posture → String
  | .readOnly => "read_only"
  | .askAlways => "ask_always"
  | .autoEdit => "auto_edit"
  | .bypass => "unsafe"

/-! ## 2. What is accepted -/

def Config.checkPosture (cfg : Config) (p : Posture) : Option String :=
  if (cfg.envelopes.lookup p.text).isSome ∨ (cfg.policy.postures.lookup p.text).isSome then none
  else some ("agentdecl: neither [envelopes." ++ p.text ++ "] nor policy.postures." ++ p.text ++
    " is declared")

/-- `Validate`: its error, or none. -/
def Config.validate (cfg : Config) : Option String :=
  if cfg.chain.tokenLimit < 0 then
    some ("agentdecl: chain.token_limit must be non-negative (0 inherits the session window), " ++
      "got " ++ toString cfg.chain.tokenLimit)
  else if cfg.chain.mainRounds ≤ 0 then
    some ("agentdecl: chain.main_rounds must be positive, got " ++ toString cfg.chain.mainRounds)
  else if cfg.chain.recoveryRounds ≤ 0 then
    some ("agentdecl: chain.recovery_rounds must be positive, got " ++
      toString cfg.chain.recoveryRounds)
  else [Posture.readOnly, .askAlways, .autoEdit].findSome? cfg.checkPosture

/-! ## 3. One agent -/

/-- The TOML library: a section written out, and a text decoded onto a configuration. -/
structure Toml where
  marshal : Doc → Except String String
  unmarshal : String → Config → Except String Config

/-- The configuration a section is decoded onto. -/
def Config.emptied (cfg : Config) : Config :=
  { cfg with
    policy := { cfg.policy with alwaysDeny := [], alwaysAllow := [], postures := [] }
    envelopes := []
    agents := [] }

/-- What the section of an agent states, over what it inherits; none where it has no section. -/
def Config.overlay (toml : Toml) (cfg : Config) (agent : String) : Except String (Option Config) :=
  match cfg.agents.lookup agent with
  | none | some [] => .ok none
  | some section_ =>
    match toml.marshal section_ with
    | .error e => .error ("agentdecl: re-encode [agents." ++ agent ++ "]: " ++ e)
    | .ok text =>
      match toml.unmarshal text cfg.emptied with
      | .error e => .error ("agentdecl: parse [agents." ++ agent ++ "]: " ++ e)
      | .ok stated => .ok (some stated)

def concatRules (root agent : List StandingRule) : List StandingRule := root ++ agent

/-- The section merged with what had been emptied. -/
def Config.merged (cfg stated : Config) : Config where
  chain := stated.chain
  policy :=
    { stated.policy with
      alwaysDeny := concatRules cfg.policy.alwaysDeny stated.policy.alwaysDeny
      alwaysAllow := concatRules cfg.policy.alwaysAllow stated.policy.alwaysAllow
      postures := stated.policy.postures ++ cfg.policy.postures }
  envelopes := mergeRawSections cfg.envelopes stated.envelopes
  agents := stated.agents

/-- `For`: the configuration an agent runs under. -/
def Config.forAgent (toml : Toml) (cfg : Config) (agent : String) : Except String Config :=
  match cfg.overlay toml agent with
  | .error e => .error e
  | .ok none => .ok { cfg with agents := [] }
  | .ok (some stated) =>
    match (cfg.merged stated).validate with
    | some e => .error ("agentdecl: [agents." ++ agent ++ "]: " ++ e)
    | none => .ok (cfg.merged stated)

/-- What `For` returns. -/
theorem forAgent_ok {toml : Toml} {cfg acfg : Config} {agent : String}
    (h : cfg.forAgent toml agent = .ok acfg) :
    (cfg.overlay toml agent = .ok none ∧ acfg = { cfg with agents := [] }) ∨
      ∃ stated, cfg.overlay toml agent = .ok (some stated) ∧ acfg = cfg.merged stated := by
  unfold Config.forAgent at h
  split at h
  · cases h
  · rename_i hov
    cases h
    exact .inl ⟨hov, rfl⟩
  · rename_i stated hov
    split at h
    · cases h
    · cases h
      exact .inr ⟨stated, hov, rfl⟩

/-! ## 4. Postures -/

/-- The axes of a posture that is still written under `[policy.postures]`. -/
def postureAxes (tx : Texts) (p : Posture) :
    List (Axis × String) → Except String (List (Axis × AxisGrant))
  | [] => .ok []
  | (axis, s) :: rest =>
    if s = "" then postureAxes tx p rest
    else
      match parseAction tx s with
      | .error e => .error ("agentdecl: posture " ++ tx.quote p.text ++ ": " ++ e)
      | .ok a => (postureAxes tx p rest).map ((axis, AxisGrant.of a) :: ·)

/-- `PostureEnvelope`. -/
def Config.postureEnvelope (tx : Texts) (cfg : Config) (p : Posture) : Except String Envelope :=
  match resolveEnvelope tx cfg.envelopes p.text with
  | .ok env => .ok env
  | .error (.malformed msg) => .error msg
  | .error (.noEnvelope _) =>
    match cfg.policy.postures.lookup p.text with
    | none => .error ("agentdecl: no posture grants configured for " ++ tx.quote p.text)
    | some grants =>
      (postureAxes tx p [(.filesRead, grants.localFSRead), (.filesWrite, grants.localFSWrite),
        (.shell, grants.localShell)]).map fun axes => { Envelope.empty p.text with axes := axes }

end Contenox.AgentDecl
