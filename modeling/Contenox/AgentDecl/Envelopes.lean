/-
# Envelopes

An `[envelopes.<name>]` section states what a run may do along a few axes (files, shell, network,
missions), which tools it names, and two lists of standing rules.  `parseEnvelope` reads one
section; `ResolveEnvelope` follows `extends` to the root of its chain and lays the envelopes over
each other, parent first.  Everything a child states replaces what the parent stated, standing
rules apart: those ACCUMULATE.

The lists that are later joined with commas hold no entry with a comma, no empty one and none with
blanks around it; `ListItem` carries that.
-/
import Contenox.AgentDecl.Documents
import Contenox.Lib.Outcome
import Contenox.Policy.Wait

namespace Contenox.AgentDecl

open Lib Hitl GoStrings
open Lib.Outcome (ok_of_map)

/-! ## 1. What an envelope is -/

/-- A rule emitted under every posture. -/
structure StandingRule where
  tools : String
  tool : String
  whenKey : String
  whenOp : String
  whenValue : String
  deriving DecidableEq, Repr

def StandingRule.zero : StandingRule := ⟨"", "", "", "", ""⟩

inductive Axis
  | filesRead
  | filesWrite
  | shell
  | networkRead
  | networkWrite
  | missionsFire
  | missionsAnswer
  deriving DecidableEq, Repr

def Axis.text : Axis → String
  | .filesRead => "files.read"
  | .filesWrite => "files.write"
  | .shell => "shell"
  | .networkRead => "network.read"
  | .networkWrite => "network.write"
  | .missionsFire => "missions.fire"
  | .missionsAnswer => "missions.answer"

/-- An entry of a refinement list; those of a joined list hold no comma. -/
structure ListItem (joined : Bool) where
  text : String
  nonempty : text ≠ ""
  trimmed : trimSpace text = text
  noComma : joined = true → ',' ∉ text.toList

inductive Substitution
  | deny
  | approve
  | off
  deriving DecidableEq, Repr

/-- A grant with the refinements its position accepts.  The durations are nanoseconds, and a
negative timeout is one without a deadline. -/
structure AxisGrant where
  grant : Option Action
  denyPaths : List (ListItem false)
  approvePaths : List (ListItem false)
  blacklist : List (ListItem true)
  substitution : Option Substitution
  prefixAllowlist : List (ListItem true)
  askAlways : List (ListItem true)
  denyHosts : List (ListItem true)
  timeout : Int
  onTimeout : Option Action

def AxisGrant.zero : AxisGrant := ⟨none, [], [], [], none, [], [], [], 0, none⟩

/-- A bare action. -/
def AxisGrant.of (action : Action) : AxisGrant := { AxisGrant.zero with grant := some action }

structure Envelope where
  name : String
  extendsName : String
  description : String
  defaultAction : AxisGrant
  axes : List (Axis × AxisGrant)
  tools : List (String × AxisGrant)
  compute : Doc
  attention : Doc
  trustedBinaries : Doc
  alwaysDeny : List StandingRule
  alwaysAllow : List StandingRule

def Envelope.empty (name : String) : Envelope :=
  ⟨name, "", "", AxisGrant.zero, [], [], [], [], [], [], []⟩

/-- What the parser asks of the libraries: `%q`, and durations read and printed. -/
structure Texts where
  quote : String → String
  parseDuration : String → Option Int
  formatDuration : Int → String

/-! ## 2. Scalars -/

section

variable (tx : Texts)

def parseAction (s : String) : Except String Action :=
  if s = "allow" then .ok .allow
  else if s = "approve" then .ok .approve
  else if s = "deny" then .ok .deny
  else .error ("unknown action " ++ tx.quote s ++ " (want allow, approve or deny)")

def envelopeString (key : String) : Raw → Except String String
  | .str s => .ok (trimSpace s)
  | v => .error (key ++ " must be a string, got " ++ v.goType)

def envelopeAction (key : String) (value : Raw) : Except String Action :=
  match envelopeString key value with
  | .error e => .error e
  | .ok s =>
    match parseAction tx s with
    | .ok a => .ok a
    | .error e => .error (key ++ ": " ++ e)

def envelopeTimeout (axis : String) (value : Raw) : Except String Int :=
  match envelopeString (axis ++ ".timeout") value with
  | .error e => .error e
  | .ok s =>
    let at_ := axis ++ ".timeout is " ++ tx.quote s
    let spellings := join ", " indefiniteSpellings
    if isIndefiniteWord s then .ok waitIndefinite
    else
      match tx.parseDuration s with
      | none => .error (at_ ++ ", which is not a duration — write it as Go writes one: 90s, 30m, " ++
          "2h, or one of " ++ spellings ++ " for an ask that waits until it is answered")
      | some d =>
        if d < 0 then .error (at_ ++ "; a wait cannot run backwards")
        else if d = 0 then .error (at_ ++ ", which states no wait at all; omit timeout to leave " ++
          "the rule without a deadline")
        else if d.tmod second ≠ 0 then .error (at_ ++ "; the policy carries whole seconds, so " ++
          "this would be truncated to " ++ tx.formatDuration (d.tdiv second * second) ++
          " — write the wait you mean")
        else if maxRuleTimeoutS < d.tdiv second then .error (at_ ++ ", longer than the " ++
          tx.formatDuration (maxRuleTimeoutS * second) ++ " a rule accepts — write one of " ++
          spellings ++ " for an ask that waits until it is answered, rather than a number that " ++
          "means it")
        else .ok d

/-- `envelopeOnTimeout`: only a denial can be stated. -/
def envelopeOnTimeout (axis : String) (value : Raw) : Except String Action :=
  match envelopeString (axis ++ ".on_timeout") value with
  | .error e => .error e
  | .ok s =>
    let at_ := axis ++ ".on_timeout is " ++ tx.quote s
    match parseAction tx s with
    | .error e => .error (axis ++ ".on_timeout: " ++ e)
    | .ok .deny => .ok .deny
    | .ok .approve => .error (at_ ++ ", which decides nothing: the wait exists because a human " ++
        "had to approve, and the runtime resolves every expiry that is not " ++
        tx.quote "allow" ++ " as a denial anyway — write " ++ tx.quote "deny")
    | .ok .allow => .error (at_ ++ ", which the policy schema refuses: an ask that allows itself " ++
        "when nobody answers bypasses the approval it exists to require — write " ++
        tx.quote "deny")

/-- The entry of index `i`. -/
def envelopeItem (key : String) (joined : Bool) (i : Nat) : Raw → Except String (ListItem joined)
  | .str s =>
    if hne : trimSpace s = "" then .error (key ++ "[" ++ toString i ++ "] is empty")
    else if hcomma : joined = true ∧ ',' ∈ (trimSpace s).toList then
      .error (key ++ "[" ++ toString i ++ "] " ++ tx.quote (trimSpace s) ++
        " contains a comma; the engine reads this list as one comma-separated value, so the " ++
        "entry would be read as two")
    else .ok ⟨trimSpace s, hne, trimSpace_trimSpace s,
      fun hj hc => hcomma ⟨hj, hc⟩⟩
  | v => .error (key ++ "[" ++ toString i ++ "] must be a string, got " ++ v.goType)

def envelopeItems (key : String) (joined : Bool) :
    Nat → List Raw → Except String (List (ListItem joined))
  | _, [] => .ok []
  | i, v :: rest =>
    match envelopeItem tx key joined i v with
    | .error e => .error e
    | .ok item => (envelopeItems key joined (i + 1) rest).map (item :: ·)

def envelopeStringList (key : String) (joined : Bool) : Raw → Except String (List (ListItem joined))
  | .list items => envelopeItems tx key joined 0 items
  | v => .error (key ++ " must be a list of strings, got " ++ v.goType)

/-! ## 3. Grants -/

def axisRefinements (axis : String) : List String :=
  if axis = Axis.filesRead.text ∨ axis = Axis.filesWrite.text then ["approve_paths", "deny_paths"]
  else if axis = Axis.shell.text then ["ask_always", "blacklist", "prefix_allowlist", "substitution"]
  else if axis = Axis.networkRead.text ∨ axis = Axis.networkWrite.text then ["deny_hosts"]
  else []

def AxisGrant.bounds (g : AxisGrant) : Bool := g.timeout ≠ 0 || g.onTimeout.isSome

def grantEmitsAsk (axis : String) (g : AxisGrant) : Bool :=
  g.grant = some .approve ||
    if axis = Axis.filesRead.text ∨ axis = Axis.filesWrite.text then !g.approvePaths.isEmpty
    else if axis = Axis.shell.text then
      !g.askAlways.isEmpty || g.substitution = some .approve
    else false

/-- `checkGrantWait`: its error, or none. -/
def checkGrantWait (axis : String) (g : AxisGrant) : Option String :=
  if g.bounds = false then none
  else if axis = Axis.missionsAnswer.text then
    some (axis ++ ": timeout/on_timeout do not apply here — this axis compiles to the attention " ++
      "block, which carries no wait, not to a rule")
  else if axis = Axis.networkRead.text ∨ axis = Axis.networkWrite.text then
    some (axis ++ ": timeout/on_timeout do not apply here — no provider serves this axis in this " ++
      "build, so it emits no rule to bound")
  else if grantEmitsAsk axis g = false then
    some (axis ++ ": timeout/on_timeout apply to an ask, and grant = " ++
      tx.quote ((g.grant.map Action.text).getD "") ++ " never asks — only " ++
      tx.quote "approve" ++ " waits for a human")
  else if g.timeout < 0 ∧ g.onTimeout ≠ none then
    some (axis ++ ": on_timeout = " ++ tx.quote ((g.onTimeout.map Action.text).getD "") ++
      " cannot apply to timeout = " ++ tx.quote "never" ++ " — an ask with no deadline never " ++
      "expires, so nothing would ever read on_timeout; drop one of the two")
  else none

def parseSubstitution (key s : String) : Except String Substitution :=
  if s = "deny" then .ok .deny
  else if s = "approve" then .ok .approve
  else if s = "off" then .ok .off
  else .error (key ++ " is " ++ tx.quote s ++ " (want deny, approve or off)")

/-- One key of the table form of a grant. -/
def parseGrantKey (axis : String) (g : AxisGrant) (key : String) (value : Raw) :
    Except String AxisGrant :=
  let at_ := axis ++ "." ++ key
  if key = "grant" then
    (envelopeAction tx at_ value).map fun a => { g with grant := some a }
  else if key = "timeout" then
    (envelopeTimeout tx axis value).map fun d => { g with timeout := d }
  else if key = "on_timeout" then
    (envelopeOnTimeout tx axis value).map fun a => { g with onTimeout := some a }
  else if key ∉ axisRefinements axis then
    .error ("unknown key " ++ tx.quote key ++ " under " ++ axis ++ " — known keys: " ++
      join ", " (["grant", "timeout", "on_timeout"] ++ axisRefinements axis))
  else if key = "substitution" then
    match envelopeString at_ value with
    | .error e => .error e
    | .ok s => (parseSubstitution tx at_ s).map fun v => { g with substitution := some v }
  else if key = "deny_paths" then
    (envelopeStringList tx at_ false value).map fun l => { g with denyPaths := l }
  else if key = "approve_paths" then
    (envelopeStringList tx at_ false value).map fun l => { g with approvePaths := l }
  else if key = "blacklist" then
    (envelopeStringList tx at_ true value).map fun l => { g with blacklist := l }
  else if key = "prefix_allowlist" then
    (envelopeStringList tx at_ true value).map fun l => { g with prefixAllowlist := l }
  else if key = "ask_always" then
    (envelopeStringList tx at_ true value).map fun l => { g with askAlways := l }
  else
    (envelopeStringList tx at_ true value).map fun l => { g with denyHosts := l }

/-- A loop over the keys of a table, in their order; it ends at the first error. -/
def eachKey {β : Type} (parse : β → String → Raw → Except String β) (table : Doc) :
    List String → β → Except String β
  | [], acc => .ok acc
  | key :: rest, acc =>
    match table.lookup key with
    | none => eachKey parse table rest acc
    | some value =>
      match parse acc key value with
      | .error e => .error e
      | .ok acc' => eachKey parse table rest acc'

def parseAxisGrantTable (axis : String) (table : Doc) : Except String AxisGrant :=
  if (table.lookup "grant").isNone then .error (axis ++ ": the table form requires grant")
  else
    match eachKey (parseGrantKey tx axis) table (sortedKeys table) AxisGrant.zero with
    | .error e => .error e
    | .ok g =>
      match checkGrantWait tx axis g with
      | some e => .error e
      | none => .ok g

def parseAxisGrant (axis : String) : Raw → Except String AxisGrant
  | .str s => (envelopeAction tx axis (.str s)).map AxisGrant.of
  | .table t => parseAxisGrantTable tx axis t
  | v => .error (axis ++ " must be an action string or a table carrying grant, got " ++ v.goType)

/-! ## 4. Standing rules and tool patterns -/

def standingRuleKeys : List String := ["tools", "tool", "when_key", "when_op", "when_value"]

/-- One key of a standing rule, the `i`-th of its list. -/
def parseStandingKey (key : String) (i : Nat) (r : StandingRule) (k : String) (value : Raw) :
    Except String StandingRule :=
  let at_ := key ++ "[" ++ toString i ++ "]"
  match envelopeString (at_ ++ "." ++ k) value with
  | .error e => .error e
  | .ok s =>
    if k = "tools" then .ok { r with tools := s }
    else if k = "tool" then .ok { r with tool := s }
    else if k = "when_key" then .ok { r with whenKey := s }
    else if k = "when_op" then .ok { r with whenOp := s }
    else if k = "when_value" then .ok { r with whenValue := s }
    else .error ("unknown key " ++ tx.quote k ++ " under " ++ at_ ++ " — known keys: " ++
      join ", " standingRuleKeys)

def standingItems (key : String) : Nat → List Raw → Except String (List StandingRule)
  | _, [] => .ok []
  | i, .table t :: rest =>
    match eachKey (parseStandingKey tx key i) t (sortedKeys t) StandingRule.zero with
    | .error e => .error e
    | .ok r => (standingItems key (i + 1) rest).map (r :: ·)
  | i, v :: _ => .error (key ++ "[" ++ toString i ++ "] must be a table, got " ++ v.goType)

def parseStandingRules (key : String) : Raw → Except String (List StandingRule)
  | .list items => standingItems tx key 0 items
  | v => .error (key ++ " must be an array of tables, got " ++ v.goType)

/-- The names a character of a pattern or an envelope's name may be of. -/
def isNameChar (c : Char) : Bool := c.isAlphanum || c = '_'

/-- `toolPatternName`. -/
def isToolPatternName (s : String) : Bool :=
  match s.toList with
  | [] => false
  | c :: rest => isNameChar c && rest.all fun c => isNameChar c || c = '-'

/-- `ToolPatternRef`: the toolset and the tool of a pattern. -/
def toolPatternRef (pattern : String) : Except String (String × String) :=
  let p := trimSpace pattern
  if p = "" then
    .error ("tools: an empty pattern matches nothing; write " ++ tx.quote "*" ++ " for every tool")
  else if p = "*" then .ok ("*", "*")
  else
    let parts := split p '.'
    if 2 < parts.length then
      .error ("tools: pattern " ++ tx.quote pattern ++ " has more than one dot; a pattern is " ++
        tx.quote "*" ++ ", " ++ tx.quote "<toolset>" ++ " or " ++ tx.quote "<toolset>.<tool>")
    else
      match parts.find? fun part => part ≠ "*" && !isToolPatternName part with
      | some part => .error ("tools: " ++ tx.quote pattern ++ " can never match — a name is " ++
          "compared exactly and the only wildcard is " ++ tx.quote "*" ++ " on its own, so a " ++
          "partial glob like " ++ tx.quote part ++ " is not a pattern")
      | none =>
        match parts with
        | [toolset, tool] => .ok (toolset, tool)
        | _ => .ok (parts.headD "", "*")

/-- One entry of the tools table. -/
def parseToolPattern (acc : List (String × AxisGrant)) (pattern : String) (value : Raw) :
    Except String (List (String × AxisGrant)) :=
  match toolPatternRef tx pattern with
  | .error e => .error e
  | .ok _ => (parseAxisGrant tx ("tools." ++ pattern) value).map fun g => acc ++ [(pattern, g)]

def parseToolPatterns : Raw → Except String (List (String × AxisGrant))
  | .table t => eachKey (parseToolPattern tx) t (sortedKeys t) []
  | v => .error ("tools must be a table of pattern = action, or pattern = a table carrying " ++
      "grant, got " ++ v.goType)

/-! ## 5. One section -/

/-- `envelopeNamePattern`. -/
def isEnvelopeName (s : String) : Bool :=
  match s.toList with
  | [] => false
  | c :: rest => (c.isLower || c.isDigit) &&
      rest.all fun c => c.isLower || c.isDigit || c = '_' || c = '-'

def Envelope.setAxis (env : Envelope) (axis : Axis) (g : AxisGrant) : Envelope :=
  { env with axes := (axis, g) :: env.axes }

/-- The axes of a section, by the last word of their keys. -/
def sectionAxes (section_ : String) : List (String × Axis) :=
  if section_ = "files" then [("read", .filesRead), ("write", .filesWrite)]
  else if section_ = "network" then [("read", .networkRead), ("write", .networkWrite)]
  else [("answer", .missionsAnswer), ("fire", .missionsFire)]

def parseAxisKey (section_ : String) (env : Envelope) (key : String) (value : Raw) :
    Except String Envelope :=
  match (sectionAxes section_).lookup key with
  | none => .error ("unknown key " ++ tx.quote key ++ " under " ++ section_ ++ " — known keys: " ++
      join ", " ((sectionAxes section_).map Prod.fst))
  | some axis => (parseAxisGrant tx axis.text value).map (env.setAxis axis)

def parseAxisTable (section_ : String) (env : Envelope) : Raw → Except String Envelope
  | .table t => eachKey (parseAxisKey tx section_) t (sortedKeys t) env
  | _ => .error (section_ ++ " must be a table of " ++
      join "/" ((sectionAxes section_).map Prod.fst))

def envelopeBlock (key : String) (known : List String) : Raw → Except String Doc
  | .table t =>
    match (sortedKeys t).find? fun k => !known.contains k with
    | some k => .error ("unknown key " ++ tx.quote k ++ " under " ++ key ++ " — known keys: " ++
        join ", " known)
    | none => .ok t
  | v => .error (key ++ " must be a table, got " ++ v.goType)

def computeBlockKeys : List String :=
  ["max_tool_calls", "max_tokens", "max_turns", "on_exhausted", "model_allowlist",
   "backend_allowlist"]

def attentionBlockKeys : List String :=
  ["allow_agent_answers", "max_agent_answers", "allow_agent_approvals", "max_agent_approvals"]

def trustedBinaryBlockKeys : List String := ["dirs", "hashes"]

def envelopeKeys : List String :=
  ["extends", "description", "default_action", "files.read", "files.write", "shell",
   "network.read", "network.write", "missions.fire", "missions.answer",
   "tools", "compute", "attention", "trusted_binaries", "always_deny", "always_allow"]

/-- The parent an `extends` names. -/
def parseExtends (value : Raw) : Except String String :=
  match envelopeString "extends" value with
  | .error e => .error e
  | .ok s =>
    if isEnvelopeName s then .ok s
    else .error ("extends " ++ tx.quote s ++ " is not a valid envelope name")

/-- A key of a section other than the two below. -/
def parseOtherKey (env : Envelope) (key : String) (value : Raw) : Except String Envelope :=
  if key = "description" then
    (envelopeString key value).map fun s => { env with description := s }
  else if key = "default_action" then
    (parseAxisGrant tx key value).map fun g => { env with defaultAction := g }
  else if key = "files" ∨ key = "network" ∨ key = "missions" then parseAxisTable tx key env value
  else if key = "shell" then
    (parseAxisGrant tx Axis.shell.text value).map (env.setAxis .shell)
  else if key = "tools" then (parseToolPatterns tx value).map fun t => { env with tools := t }
  else if key = "compute" then
    (envelopeBlock tx key computeBlockKeys value).map fun b => { env with compute := b }
  else if key = "attention" then
    (envelopeBlock tx key attentionBlockKeys value).map fun b => { env with attention := b }
  else if key = "trusted_binaries" then
    (envelopeBlock tx key trustedBinaryBlockKeys value).map fun b =>
      { env with trustedBinaries := b }
  else if key = "always_allow" then
    (parseStandingRules tx key value).map fun l => { env with alwaysAllow := l }
  else .error ("unknown key " ++ tx.quote key ++ " — known keys: " ++
    join ", " envelopeKeys)

/-- One key of a section. -/
def parseEnvelopeKey (env : Envelope) (key : String) (value : Raw) : Except String Envelope :=
  if key = "extends" then (parseExtends tx value).map fun s => { env with extendsName := s }
  else if key = "always_deny" then
    (parseStandingRules tx key value).map fun l => { env with alwaysDeny := l }
  else parseOtherKey tx env key value

def parseEnvelope (name : String) (raw : Doc) : Except String Envelope :=
  match eachKey (parseEnvelopeKey tx) raw (sortedKeys raw) (Envelope.empty name) with
  | .ok env => .ok env
  | .error e => .error ("agentdecl: [envelopes." ++ name ++ "]: " ++ e)

/-! ## 6. The chain -/

/-- An error of the lookup, told apart from every other because a caller falls back on it. -/
inductive EnvelopeError
  | noEnvelope (msg : String)
  | malformed (msg : String)
  deriving DecidableEq, Repr

def EnvelopeError.text : EnvelopeError → String
  | .noEnvelope msg | .malformed msg => msg

variable (envelopes : List (String × Doc))

/-- `ParseEnvelope`. -/
def parseDeclared (name : String) : Except EnvelopeError Envelope :=
  match envelopes.lookup name with
  | none => .error (.noEnvelope ("agentdecl: no such envelope: " ++ tx.quote name))
  | some raw =>
    if isEnvelopeName name then (parseEnvelope tx name raw).mapError .malformed
    else .error (.malformed ("agentdecl: [envelopes." ++ name ++ "]: name must match " ++
      "^[a-z0-9][a-z0-9_-]*$ (a dot would collide with TOML sub-table syntax)"))

def maxEnvelopeChainDepth : Nat := 8

/-- The loop of `ResolveEnvelope`, from `cur` on, with room for `room` more envelopes. -/
def extendsChain (name : String) : Nat → List String → String →
    Except EnvelopeError (List Envelope)
  | room, seen, cur =>
    if cur ∈ seen then
      .error (.malformed ("agentdecl: [envelopes." ++ name ++ "]: extends forms a cycle through " ++
        tx.quote cur))
    else
      match parseDeclared tx envelopes cur with
      | .error (.noEnvelope msg) =>
        if cur = name then .error (.noEnvelope msg)
        else .error (.malformed ("agentdecl: [envelopes." ++ name ++ "]: extends names " ++
          tx.quote cur ++ ", which no envelope declares"))
      | .error (.malformed msg) => .error (.malformed msg)
      | .ok env =>
        match room with
        | 0 => .error (.malformed ("agentdecl: [envelopes." ++ name ++
            "]: extends chain is deeper than " ++ toString maxEnvelopeChainDepth ++ " envelopes"))
        | room' + 1 =>
          if env.extendsName = "" then .ok [env]
          else
            match extendsChain name room' (cur :: seen) env.extendsName with
            | .error e => .error e
            | .ok rest => .ok (env :: rest)

/-- `concatStandingRules`: each rule at its first place. -/
def concatStandingRules (parent child : List StandingRule) : List StandingRule :=
  (parent ++ child).foldl (fun out r => if r ∈ out then out else out ++ [r]) []

def mergeBlock (parent child : Doc) : Doc :=
  if child = [] then parent else if parent = [] then child else mergeRaw parent child

def layerEnvelope (parent child : Envelope) : Envelope where
  name := parent.name
  extendsName := parent.extendsName
  description := if child.description ≠ "" then child.description else parent.description
  defaultAction := if child.defaultAction.grant.isSome then child.defaultAction
    else parent.defaultAction
  axes := child.axes ++ parent.axes
  tools := child.tools ++ parent.tools
  compute := mergeBlock parent.compute child.compute
  attention := mergeBlock parent.attention child.attention
  trustedBinaries := mergeBlock parent.trustedBinaries child.trustedBinaries
  alwaysDeny := concatStandingRules parent.alwaysDeny child.alwaysDeny
  alwaysAllow := concatStandingRules parent.alwaysAllow child.alwaysAllow

/-- `ResolveEnvelope`. -/
def resolveEnvelope (name : String) : Except EnvelopeError Envelope :=
  if name = "" then .error (.noEnvelope "agentdecl: no such envelope: the empty name")
  else
    match extendsChain tx envelopes name maxEnvelopeChainDepth [] name with
    | .error e => .error e
    | .ok chain =>
      .ok { chain.foldr (fun env out => layerEnvelope out env) (Envelope.empty name) with
        name := name
        extendsName := (chain.head?.map (·.extendsName)).getD "" }

end

/-! ## 7. What a section that was read says -/

section

variable {tx : Texts} {keys seen : List String} {v : Raw} {name : String} {env : Envelope}
  {raw : Doc} {envelopes : List (String × Doc)} {β : Type}

theorem of_ite_ok {c : Prop} [Decidable c] {x y : Except String β} {b : β} {P : Prop}
    (h : (if c then x else y) = .ok b) (hx : c → x = .ok b → P) (hy : ¬ c → y = .ok b → P) : P := by
  by_cases hc : c
  · rw [if_pos hc] at h
    exact hx hc h
  · rw [if_neg hc] at h
    exact hy hc h

variable {γ : Type} {parse : β → String → Raw → Except String β} {table : Doc} {acc acc' : β}

/-- What every key leaves alone, the loop leaves alone. -/
theorem eachKey_keeps {f : β → γ}
    (hkeeps : ∀ a key v a', key ∈ keys → parse a key v = .ok a' → f a' = f a)
    (h : eachKey parse table keys acc = .ok acc') : f acc' = f acc := by
  induction keys generalizing acc with
  | nil =>
    cases h
    rfl
  | cons key rest ih =>
    have hrest := fun a k v a' (hk : k ∈ rest) => hkeeps a k v a' (List.mem_cons_of_mem _ hk)
    rw [eachKey] at h
    split at h
    · exact ih hrest h
    rename_i value _
    split at h
    · cases h
    · rename_i acc₁ hparse
      exact (ih hrest h).trans (hkeeps acc key value acc₁ List.mem_cons_self hparse)

/-- What only the key `k` sets is as `k` set it. -/
theorem eachKey_sets {f : β → γ} {k : String}
    (hkeeps : ∀ a key v a', key ≠ k → parse a key v = .ok a' → f a' = f a)
    (hv : table.lookup k = some v) (hk : k ∈ keys) (hnodup : keys.Nodup)
    (h : eachKey parse table keys acc = .ok acc') :
    ∃ a a', parse a k v = .ok a' ∧ f acc' = f a' := by
  induction keys generalizing acc with
  | nil => cases hk
  | cons key rest ih =>
    obtain ⟨hfresh, hnodup⟩ := List.nodup_cons.mp hnodup
    rw [eachKey] at h
    by_cases hkey : key = k
    · subst hkey
      rw [hv] at h
      dsimp only at h
      split at h
      · cases h
      rename_i acc₁ hparse
      refine ⟨acc, acc₁, hparse, ?_⟩
      refine eachKey_keeps ?_ h
      intro a key' v' a' hmem
      exact hkeeps a key' v' a' (fun heq => hfresh (heq ▸ hmem))
    · have hk : k ∈ rest := (List.mem_cons.mp hk).resolve_left (fun h => hkey h.symm)
      split at h
      · exact ih hk hnodup h
      split at h
      · cases h
      · exact ih hk hnodup h

variable {f : Envelope → γ}

/-- A field that only one key of a section sets. -/
theorem parseEnvelope_reads {k : String}
    (hkeeps : ∀ a key v a', key ≠ k → parseEnvelopeKey tx a key v = .ok a' → f a' = f a)
    (h : parseEnvelope tx name raw = .ok env) (hv : raw.lookup k = some v) :
    ∃ a a', parseEnvelopeKey tx a k v = .ok a' ∧ f env = f a' := by
  unfold parseEnvelope at h
  split at h
  · rename_i env' hkeys
    cases h
    exact eachKey_sets hkeeps hv (mem_sortedKeys.mpr (by rw [hv]; rfl)) (nodup_sortedKeys raw) hkeys
  · cases h

variable {env' : Envelope}

/-- The axes of a section are all that its table sets. -/
theorem parseAxisTable_keeps (hf : ∀ env axis g, f (Envelope.setAxis env axis g) = f env)
    {section_ : String} (h : parseAxisTable tx section_ env v = .ok env') : f env' = f env := by
  unfold parseAxisTable at h
  split at h
  · refine eachKey_keeps ?_ h
    intro a key v a' _ hparse
    unfold parseAxisKey at hparse
    split at hparse
    · cases hparse
    · obtain ⟨g, -, rfl⟩ := ok_of_map hparse
      exact hf a _ g
  · cases h

theorem parseOtherKey_keeps {key : String} (h : parseOtherKey tx env key v = .ok env') :
    env'.extendsName = env.extendsName ∧ env'.alwaysDeny = env.alwaysDeny := by
  -- a branch that sets one field
  have hset : ∀ {β : Type} {x : Except String β} {f : β → Envelope}, x.map f = .ok env' →
      (∀ b, (f b).extendsName = env.extendsName ∧ (f b).alwaysDeny = env.alwaysDeny) →
      env'.extendsName = env.extendsName ∧ env'.alwaysDeny = env.alwaysDeny := by
    intro β x f hx hkept
    obtain ⟨b, -, rfl⟩ := ok_of_map hx
    exact hkept b
  iterate 2 refine of_ite_ok h (fun _ h => hset h fun _ => ⟨rfl, rfl⟩) fun _ h => ?_
  refine of_ite_ok h (fun _ h => ⟨parseAxisTable_keeps (fun _ _ _ => rfl) h,
    parseAxisTable_keeps (fun _ _ _ => rfl) h⟩) fun _ h => ?_
  iterate 6 refine of_ite_ok h (fun _ h => hset h fun _ => ⟨rfl, rfl⟩) fun _ h => ?_
  cases h

/-- The parent of an envelope is what its `extends` names. -/
theorem parseEnvelope_extends (h : parseEnvelope tx name raw = .ok env)
    (hv : raw.lookup "extends" = some v) : parseExtends tx v = .ok env.extendsName := by
  have hreads := parseEnvelope_reads (f := Envelope.extendsName) ?_ h hv
  · obtain ⟨a, a', hparse, heq⟩ := hreads
    obtain ⟨s, hs, rfl⟩ := ok_of_map hparse
    rw [heq]
    exact hs
  · intro a key v a' hne hparse
    refine of_ite_ok hparse (fun hkey => absurd hkey hne) fun _ hparse => ?_
    refine of_ite_ok hparse ?_ fun _ hparse => (parseOtherKey_keeps hparse).1
    intro _ hparse
    obtain ⟨l, -, rfl⟩ := ok_of_map hparse
    rfl

/-- The standing denies of an envelope are what its `always_deny` lists. -/
theorem parseEnvelope_alwaysDeny (h : parseEnvelope tx name raw = .ok env)
    (hv : raw.lookup "always_deny" = some v) :
    parseStandingRules tx "always_deny" v = .ok env.alwaysDeny := by
  have hreads := parseEnvelope_reads (f := Envelope.alwaysDeny) ?_ h hv
  · obtain ⟨a, a', hparse, heq⟩ := hreads
    obtain ⟨l, hl, rfl⟩ := ok_of_map hparse
    rw [heq]
    exact hl
  · intro a key v a' hne hparse
    refine of_ite_ok hparse ?_ fun _ hparse => ?_
    · intro _ hparse
      obtain ⟨s, -, rfl⟩ := ok_of_map hparse
      rfl
    · exact of_ite_ok hparse (fun hkey => absurd hkey hne)
        fun _ hparse => (parseOtherKey_keeps hparse).2

theorem parseDeclared_ok (h : parseDeclared tx envelopes name = .ok env) :
    ∃ raw, envelopes.lookup name = some raw ∧ parseEnvelope tx name raw = .ok env := by
  unfold parseDeclared at h
  split at h
  · cases h
  rename_i raw hraw
  refine ⟨raw, hraw, ?_⟩
  split at h
  · cases hparse : parseEnvelope tx name raw with
    | error e =>
      rw [hparse] at h
      cases h
    | ok env' =>
      rw [hparse] at h
      cases h
      rfl
  · cases h

variable {cur : String} {room : Nat}

/-- A chain is the envelope it starts at, and the chain of that envelope's parent. -/
theorem extendsChain_ok {chain : List Envelope}
    (h : extendsChain tx envelopes name room seen cur = .ok chain) :
    ∃ env rest, parseDeclared tx envelopes cur = .ok env ∧ chain = env :: rest ∧
      (env.extendsName ≠ "" → ∃ room' seen',
        extendsChain tx envelopes name room' seen' env.extendsName = .ok rest) := by
  unfold extendsChain at h
  split at h
  · cases h
  split at h
  · split at h
    · cases h
    · cases h
  · cases h
  rename_i env henv
  split at h
  · cases h
  rename_i room'
  split at h
  · rename_i hroot
    cases h
    exact ⟨env, [], henv, rfl, fun hne => absurd hroot hne⟩
  · split at h
    · cases h
    rename_i rest hrest
    cases h
    exact ⟨env, rest, henv, rfl, fun _ => ⟨room', cur :: seen, hrest⟩⟩

theorem parseDeclared_noEnvelope {msg : String}
    (h : parseDeclared tx envelopes name = .error (.noEnvelope msg)) :
    envelopes.lookup name = none := by
  unfold parseDeclared at h
  split at h
  · assumption
  rename_i raw _
  split at h
  · cases hparse : parseEnvelope tx name raw with
    | error e | ok env =>
      rw [hparse] at h
      cases h
  · cases h

/-- Only an envelope that is not declared is reported as missing. -/
theorem extendsChain_noEnvelope {msg : String}
    (h : extendsChain tx envelopes name room seen cur = .error (.noEnvelope msg)) :
    envelopes.lookup name = none := by
  fun_induction extendsChain tx envelopes name room seen cur with
  | case1 => cases h
  | case2 _ _ _ _ hdecl => exact parseDeclared_noEnvelope hdecl
  | case3 | case4 | case5 | case6 => cases h
  | case7 _ _ _ _ _ _ _ e hrest ih =>
    cases h
    exact ih hrest
  | case8 => cases h

end

end Contenox.AgentDecl
