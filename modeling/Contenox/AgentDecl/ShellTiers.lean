/-
# The tiers of the shell

An envelope's shell axis is emitted in five tiers: `blacklist`, `substitution`, `prefix_allowlist`,
`ask_always` and the grant as the floor.  The first matching rule decides, so the order is the
meaning.  The blacklist cannot be reached past.  `ask_always` can: the allowlist stands BEFORE it,
and a command that both name is allowed although the list says it asks always.

The section on groups shows that nothing in front of the tiers decides a call of the shell except
the standing denies, the tools patterns and the standing allows; the section on tiers says when
each of the five matches.
-/
import Contenox.AgentDecl.Standing

namespace Contenox.AgentDecl

open Lib Hitl Shell LocalShell

variable {scope : EvalScope} {g : AxisGrant} {env : Envelope}

/-! ## 1. Lists -/

/-- A joined list is read back as its entries. -/
theorem listNames_joinItems (l : List (ListItem true)) :
    listNames (joinItems l) = l.map (·.text) := by
  cases l with
  | nil => decide
  | cons a l =>
    have hcomma : ∀ w ∈ (a :: l).map (·.text), ',' ∉ w.toList := by
      intro w hw
      obtain ⟨item, -, rfl⟩ := List.mem_map.mp hw
      exact item.noComma rfl
    have hsplit : GoStrings.split (joinItems (a :: l)) ',' = (a :: l).map (·.text) :=
      GoStrings.split_join (by simp) hcomma
    have htrim : ((a :: l).map (·.text)).map GoStrings.trimSpace = (a :: l).map (·.text) := by
      rw [List.map_map]
      exact List.map_congr_left fun item _ => item.trimmed
    unfold listNames
    rw [hsplit, htrim, List.filter_eq_self]
    intro w hw
    obtain ⟨item, -, rfl⟩ := List.mem_map.mp hw
    simpa using item.nonempty

/-- The call has a command. -/
def HasCommand (args : Args) : Prop :=
  ∃ v, args.get "command" = some v ∧ conditionValues v ≠ []

/-- The command of the call is on the list: the program it starts with, or one that its line
runs. -/
def OnList (scope : EvalScope) (list : List (ListItem true)) : Prop :=
  HasCommand scope.args ∧
    (commandBasename scope.args ∈ list.map (·.text) ∨
      scope.shell.parsed = true ∧ ∃ cmd ∈ scope.shell.commands, cmd.base ∈ list.map (·.text))

/-- Some argument of the call substitutes, and it has words beside its command. -/
def Substitutes (scope : EvalScope) : Prop :=
  (∃ v, scope.args.get "args" = some v ∧ conditionValues v ≠ []) ∧
    commandSubstitutionMatch scope = true

variable {list : List (ListItem true)}

section Tiers

variable {c : Condition} {action : Action}

theorem items_ne_empty {w : String} (h : w ∈ list.map (·.text)) : w ≠ "" := by
  obtain ⟨item, -, rfl⟩ := List.mem_map.mp h
  exact item.nonempty

theorem commandInListMatch_isSome (list : List (ListItem true)) :
    (commandInListMatch scope (joinItems list)).isSome = true ↔
      commandBasename scope.args ∈ list.map (·.text) ∨
        scope.shell.parsed = true ∧ ∃ cmd ∈ scope.shell.commands, cmd.base ∈ list.map (·.text) := by
  unfold commandInListMatch commandBasenameInList structuralCommandInList
  rw [listNames_joinItems]
  by_cases hbase : commandBasename scope.args ∈ list.map (·.text)
  · have hne := items_ne_empty hbase
    simp [hbase, hne]
  by_cases hparsed : scope.shell.parsed = true
  · rw [if_neg (by simp [hbase]), if_pos hparsed, Option.isSome_map, List.find?_isSome]
    constructor
    · rintro ⟨cmd, hmem, hin⟩
      exact .inr ⟨hparsed, cmd, hmem, by simpa using (Bool.and_eq_true_iff.mp hin).2⟩
    rintro (h | ⟨-, cmd, hmem, hin⟩)
    · exact absurd h hbase
    · have hne := items_ne_empty hin
      exact ⟨cmd, hmem, by simpa [hne] using hin⟩
  · simp [hbase, hparsed]

/-! ## 2. When a tier matches -/

/-- A condition that looks at the call as a whole asks of its key only that it has a value. -/
theorem conditionMatches_whole {b : Bool} (h : ∀ s st, (valueMatches scope c action s st).1 = b)
    (st : EvalState) : (conditionMatches scope c action st).1 = true ↔
      (∃ v, scope.args.get c.key = some v ∧ conditionValues v ≠ []) ∧ b = true := by
  have hany : ∀ l st, (anyValueMatches scope c action l st).1 = true ↔ l ≠ [] ∧ b = true := by
    intro l
    induction l with
    | nil => simp [anyValueMatches]
    | cons s l ih =>
      intro st
      rw [anyValueMatches]
      dsimp only
      rw [h s st]
      cases b with
      | true => simp
      | false => simpa using ih (valueMatches scope c action s st).2
  unfold conditionMatches
  cases scope.args.get c.key with
  | none => simp
  | some v => simp [hany]

variable (r : Rule)

@[simp] theorem bounded_tools : (g.bounded r).tools = r.tools := by
  unfold AxisGrant.bounded
  split <;> rfl

@[simp] theorem bounded_tool : (g.bounded r).tool = r.tool := by
  unfold AxisGrant.bounded
  split <;> rfl

@[simp] theorem bounded_when : (g.bounded r).when = r.when := by
  unfold AxisGrant.bounded
  split <;> rfl

@[simp] theorem bounded_action : (g.bounded r).action = r.action := by
  unfold AxisGrant.bounded
  split <;> rfl

/-- The rule matches the call of the shell. -/
abbrev onShell (scope : EvalScope) (r : Rule) : Bool :=
  r.hits scope localExecToolsName localExecToolsName

theorem hits_shellRule (key : String) (op : ConditionOp) (value : String) :
    onShell scope (shellRule g action key op value) =
      (conditionMatches scope ⟨key, op, value⟩ action ⟨"", MatchNote.zero⟩).1 := by
  have hcovers : (shellRule g action key op value).covers localExecToolsName localExecToolsName =
      true := by
    simp [shellRule, Rule.covers, bareRule]
  unfold onShell Rule.hits ruleMatches
  rw [if_pos hcovers]
  simp only [shellRule, bounded_when, bounded_action, bareRule, allConditionsMatch]
  split
  · rename_i h
    rw [h]
  · rename_i h
    simpa using h

theorem hits_list {op : ConditionOp} (hop : op = .commandBlacklist ∨ op = .commandAskAlways)
    (list : List (ListItem true)) :
    onShell scope (shellRule g action "command" op (joinItems list)) = true ↔ OnList scope list := by
  rw [hits_shellRule, conditionMatches_whole, commandInListMatch_isSome]
  · rfl
  intro s st
  unfold valueMatches
  rcases hop with rfl | rfl
  all_goals cases commandInListMatch scope (joinItems list) <;> rfl

theorem hits_substitution :
    onShell scope (shellRule g action "args" .noCommandSubstitution "") = true ↔
      Substitutes scope := by
  rw [hits_shellRule, conditionMatches_whole]
  · rfl
  · intro s st
    rfl

theorem hits_allowlist (list : String) :
    onShell scope (shellRule g action "command" .commandPrefixAllowlist list) = true ↔
      HasCommand scope.args ∧
        (commandPrefixAllowMatch scope list action ⟨"", MatchNote.zero⟩).1 = true := by
  rw [hits_shellRule, conditionMatches_whole]
  · rfl
  · intro s st
    exact (commandPrefixAllowMatch_steady scope action list st ⟨"", MatchNote.zero⟩).2

end Tiers

/-! ## 3. The groups in front -/

section

/-- None of the rules does. -/
abbrev Missed (scope : EvalScope) (rules : List Rule) : Prop := ∀ r ∈ rules, onShell scope r = false

/-- A rule of another toolset does not match a call of the shell. -/
theorem not_hits_of_tools {r : Rule} (h : r.tools = localFSToolsName ∨ r.tools = missionToolsName) :
    onShell scope r = false := by
  refine hits_of_not_covers ?_
  unfold Rule.covers
  rcases h with h | h
  · rw [h]
    rfl
  · rw [h]
    rfl

variable {axis : Axis}

/-- The axes that are emitted in front of the shell are about other toolsets. -/
theorem axisTools_tools (hne : axis ≠ .shell) {tool : String × String} (h : tool ∈ axisTools axis) :
    tool.1 = localFSToolsName ∨ tool.1 = missionToolsName := by
  cases axis with
  | filesRead | filesWrite =>
    obtain ⟨name, -, rfl⟩ := List.mem_map.mp h
    exact .inl rfl
  | missionsFire =>
    rw [List.mem_singleton.mp h]
    exact .inr rfl
  | shell => exact absurd rfl hne
  | networkRead | networkWrite | missionsAnswer => cases h

theorem pathRules_not_hits (hne : axis ≠ .shell) (action : Action) :
    Missed scope (pathRules env axis action) := by
  intro r hr
  unfold pathRules at hr
  split at hr
  · cases hr
  obtain ⟨glob, -, hr⟩ := List.mem_flatMap.mp hr
  obtain ⟨tool, htool, rfl⟩ := List.mem_map.mp hr
  refine not_hits_of_tools ?_
  rw [bounded_tools]
  exact axisTools_tools hne htool

theorem grantRules_not_hits (hne : axis ≠ .shell) : Missed scope (grantRules env axis) := by
  intro r hr
  unfold grantRules at hr
  split at hr
  · cases hr
  split at hr
  · cases hr
  obtain ⟨tool, htool, rfl⟩ := List.mem_map.mp hr
  refine not_hits_of_tools ?_
  rw [bounded_tools]
  exact axisTools_tools hne htool

theorem missionToolRules_not_hits (ir : AgentIR) : Missed scope (missionToolRules ir) := by
  intro r hr
  unfold missionToolRules at hr
  split at hr
  · obtain ⟨tool, -, rfl⟩ := List.mem_map.mp hr
    exact not_hits_of_tools (.inr rfl)
  · cases hr

/-- No tools pattern and no standing allow of the envelope covers the call. -/
structure Uncovered (tx : Texts) (env : Envelope) (scope : EvalScope) : Prop where
  patterns : ∀ toolRules, toolPatternRules tx env = .ok toolRules → ∀ r ∈ toolRules,
    r.hits scope localExecToolsName localExecToolsName = false
  allows : ∀ r ∈ env.alwaysAllow,
    (r.rule .allow).hits scope localExecToolsName localExecToolsName = false

/-- A call of the shell that nothing covers is decided by the standing denies, then the tiers. -/
theorem orderedRules_find? {tx : Texts} {toolRules : List Rule}
    (htools : toolPatternRules tx env = .ok toolRules) (huncovered : Uncovered tx env scope)
    (ir : AgentIR) :
    (orderedRules env toolRules (missionToolRules ir)).find? (onShell scope) =
      ((standingRules env.alwaysDeny .deny).find? (onShell scope)).or
        ((shellRules env).find? (onShell scope)) := by
  have hallows : Missed scope (standingRules env.alwaysAllow .allow) := by
    intro r hr
    obtain ⟨r', hr', rfl⟩ := List.mem_map.mp hr
    exact huncovered.allows r' hr'
  unfold orderedRules
  simp only [List.append_assoc]
  rw [List.find?_append]
  congr 1
  rw [find?_skip (pathRules_not_hits (by decide) _), find?_skip (pathRules_not_hits (by decide) _),
    find?_skip (pathRules_not_hits (by decide) _), find?_skip (pathRules_not_hits (by decide) _),
    find?_skip (huncovered.patterns _ htools), find?_skip hallows,
    find?_skip (missionToolRules_not_hits ir), find?_skip (grantRules_not_hits (by decide)),
    find?_skip (grantRules_not_hits (by decide)), find?_skip (grantRules_not_hits (by decide))]

end

/-! ## 4. The decision -/

section

/-- Something denies the call in front of `ask_always`. -/
def Denied (env : Envelope) (g : AxisGrant) (scope : EvalScope) : Prop :=
  (∃ r ∈ env.alwaysDeny, DeniedBy scope.host scope.shellKind scope.args localExecToolsName
    localExecToolsName r) ∨
  OnList scope g.blacklist ∨ (g.substitution = some .deny ∧ Substitutes scope)

/-- The allowlist lets the call through, and no ask about its substitutions comes first. -/
def Admitted (g : AxisGrant) (scope : EvalScope) : Prop :=
  ¬ (g.substitution = some .approve ∧ Substitutes scope) ∧ g.prefixAllowlist ≠ [] ∧
    (commandPrefixAllowMatch scope (joinItems g.prefixAllowlist) .allow ⟨"", MatchNote.zero⟩).1 =
      true

theorem ne_nil_of_onList (h : OnList scope list) : list ≠ [] := by
  rintro rfl
  obtain ⟨-, hin | ⟨-, cmd, -, hin⟩⟩ := h
  · cases hin
  · cases hin

theorem find?_singleton_pos {p : Rule → Bool} {r : Rule} {rest : List Rule} (h : p r = true) :
    ([r] ++ rest).find? p = some r := by
  rw [List.singleton_append, List.find?_cons, h]

/-- Among the tiers the blacklist decides what it names. -/
theorem shellRules_blacklist (hshell : env.axes.lookup .shell = some g)
    (h : OnList scope g.blacklist) :
    ((shellRules env).find? (onShell scope)).map Rule.action = some .deny := by
  unfold shellRules
  rw [hshell]
  simp only [List.append_assoc]
  rw [if_neg (ne_nil_of_onList h), find?_singleton_pos ((hits_list (.inl rfl) _).mpr h)]
  simp [shellRule, bareRule]

/-- The blacklist tier does not decide a call it does not name. -/
theorem blacklist_not_hits (h : ¬ OnList scope g.blacklist) :
    Missed scope (if g.blacklist = [] then []
      else [shellRule g .deny "command" .commandBlacklist (joinItems g.blacklist)]) := by
  intro r hr
  split at hr
  · cases hr
  · rw [List.mem_singleton.mp hr, ← Bool.not_eq_true, hits_list (.inl rfl)]
    exact h

/-- The substitution tier decides nothing about a call that does not substitute. -/
theorem substitution_not_hits (hdeny : ¬ (g.substitution = some .deny ∧ Substitutes scope))
    (hask : ¬ (g.substitution = some .approve ∧ Substitutes scope)) :
    Missed scope (substitutionRules g) := by
  intro r hr
  unfold substitutionRules at hr
  split at hr
  · cases hr
  · cases hr
  · rename_i hset
    rw [List.mem_singleton.mp hr, ← Bool.not_eq_true, hits_substitution]
    exact fun hsubst => hdeny ⟨hset, hsubst⟩
  · rename_i hset
    rw [List.mem_singleton.mp hr, ← Bool.not_eq_true, hits_substitution]
    exact fun hsubst => hask ⟨hset, hsubst⟩

/-- Among the tiers, what `ask_always` names and nothing denies is asked about, unless the
allowlist admits it: then it is allowed. -/
theorem shellRules_askAlways (hshell : env.axes.lookup .shell = some g)
    (hask : OnList scope g.askAlways) (hdenied : ¬ Denied env g scope) :
    (Admitted g scope ∧ ((shellRules env).find? (onShell scope)).map Rule.action = some .allow) ∨
      (¬ Admitted g scope ∧
        ((shellRules env).find? (onShell scope)).map Rule.action = some .approve) := by
  obtain ⟨-, hblack, hsubst⟩ : _ ∧ ¬ OnList scope g.blacklist ∧
      ¬ (g.substitution = some .deny ∧ Substitutes scope) := by
    simpa only [Denied, not_or] using hdenied
  unfold shellRules
  rw [hshell]
  simp only [List.append_assoc]
  rw [find?_skip (blacklist_not_hits hblack)]
  by_cases hsask : g.substitution = some .approve ∧ Substitutes scope
  · refine .inr ⟨fun h => h.1 hsask, ?_⟩
    have hrules : substitutionRules g = [shellRule g .approve "args" .noCommandSubstitution ""] := by
      unfold substitutionRules
      rw [hsask.1]
    rw [hrules, find?_singleton_pos (hits_substitution.mpr hsask.2)]
    simp [shellRule, bareRule]
  · rw [find?_skip (substitution_not_hits hsubst hsask)]
    by_cases hgrants : Admitted g scope
    · refine .inl ⟨hgrants, ?_⟩
      obtain ⟨-, hne, hprefix⟩ := hgrants
      rw [if_neg hne, find?_singleton_pos ((hits_allowlist _).mpr ⟨hask.1, hprefix⟩)]
      simp [shellRule, bareRule]
    · refine .inr ⟨hgrants, ?_⟩
      rw [find?_skip, if_neg (ne_nil_of_onList hask),
        find?_singleton_pos ((hits_list (.inr rfl) _).mpr hask)]
      · simp [shellRule, bareRule]
      intro r hr
      split at hr
      · cases hr
      rename_i hne
      rw [List.mem_singleton.mp hr, ← Bool.not_eq_true, hits_allowlist]
      exact fun h => hgrants ⟨hsask, hne, h.2⟩

/-- A standing deny that matches is found first, and one that is found matches. -/
theorem standing_find? (scope : EvalScope) (l : List StandingRule) (toolsName toolName : String) :
    ((standingRules l .deny).find? (·.hits scope toolsName toolName) = none) ∨
      ∃ r ∈ l, DeniedBy scope.host scope.shellKind scope.args toolsName toolName r ∧
        (standingRules l .deny).find? (·.hits scope toolsName toolName) = some (r.rule .deny) := by
  cases hfind : (standingRules l .deny).find? (·.hits scope toolsName toolName) with
  | none => exact .inl rfl
  | some d =>
    obtain ⟨r, hr, rfl⟩ := List.mem_map.mp (List.mem_of_find?_eq_some hfind)
    have hhit := List.find?_some hfind
    rw [hits_bare (by simp [StandingRule.rule])] at hhit
    exact .inr ⟨r, hr, hhit, rfl⟩

/-- The tiers of the shell, for a call that no tools pattern and no standing allow covers: what
the blacklist names is denied; what `ask_always` names and nothing denies is asked about exactly
when the allowlist does not admit it first. -/
theorem shell_tiers_decide {tx : Texts} {ir : AgentIR} {p : EmittedPolicy}
    (hemit : transpile tx env (missionToolRules ir) = .ok p)
    (hshell : env.axes.lookup .shell = some g) {trusted : Option TrustedBinaries}
    (htrusted : envelopeTrustedBinaries tx env.trustedBinaries = .ok trusted)
    {host : Host} {kind : Kind} {args : Args}
    (huncovered : Uncovered tx env ⟨host, kind, args, trusted⟩) :
    (OnList ⟨host, kind, args, trusted⟩ g.blacklist →
      (evaluate host kind p.toPolicy localExecToolsName localExecToolsName args).action = .deny) ∧
    (OnList ⟨host, kind, args, trusted⟩ g.askAlways → ¬ Denied env g ⟨host, kind, args, trusted⟩ →
      ((evaluate host kind p.toPolicy localExecToolsName localExecToolsName args).action = .approve ↔
        ¬ Admitted g ⟨host, kind, args, trusted⟩)) := by
  obtain ⟨toolRules, htools, hrules⟩ := transpile_ok hemit
  obtain rfl : trusted = p.trustedBinaries :=
    Except.ok.inj (htrusted.symm.trans (transpile_trusted hemit))
  rw [evaluate_action, hrules, orderedRules_find? htools huncovered]
  rcases standing_find? ⟨host, kind, args, p.trustedBinaries⟩ env.alwaysDeny localExecToolsName
    localExecToolsName with hnone | ⟨r, hr, hdeny, hsome⟩
  · rw [hnone, Option.none_or]
    refine ⟨fun hblack => ?_, fun hask hdenied => ?_⟩
    · rw [shellRules_blacklist hshell hblack]
      rfl
    rcases shellRules_askAlways hshell hask hdenied with ⟨hgrants, hact⟩ | ⟨hgrants, hact⟩
    · rw [hact]
      simp [hgrants]
    · rw [hact]
      simp [hgrants]
  · rw [hsome, Option.some_or]
    exact ⟨fun _ => rfl, fun _ hdenied => absurd (.inl ⟨r, hr, hdeny⟩) hdenied⟩

end

/-! ## 5. A command on both lists -/

def rmItem : ListItem true := ⟨"rm", by decide, by decide, fun _ => by decide⟩

/-- A shell whose `ask_always` names `rm`, beside an allowlist. -/
def clawGrant (allowlist : List (ListItem true)) : AxisGrant :=
  { AxisGrant.of .approve with prefixAllowlist := allowlist, askAlways := [rmItem] }

def clawEnvelope (allowlist : List (ListItem true)) : Envelope :=
  { Envelope.empty "default" with axes := [(.shell, clawGrant allowlist)] }

/-- The program `rm` with one argument. -/
def rmCall : Args := ⟨[("command", .str "rm"), ("args", .strs ["notes"])], by decide⟩

/-- A section whose allowlist names `rm` too. -/
def clawSections : List (String × Doc) :=
  [("default", [("shell", .table [("grant", .str "approve"),
    ("prefix_allowlist", .list [.str "rm"]), ("ask_always", .list [.str "rm"])])])]

variable (allowlist : List (ListItem true))

theorem clawEnvelope_uncovered (scope : EvalScope) :
    Uncovered plainTexts (clawEnvelope allowlist) scope := by
  constructor
  · rintro toolRules htools r hr
    cases htools
    cases hr
  · intro r hr
    cases hr

theorem onList_rm :
    OnList ⟨plainHost, .posix, rmCall, none⟩ (clawGrant allowlist).askAlways :=
  ⟨⟨_, rfl, by decide⟩, .inl (List.mem_singleton.mpr (by decide))⟩

theorem clawEnvelope_not_denied (scope : EvalScope) :
    ¬ Denied (clawEnvelope allowlist) (clawGrant allowlist) scope := by
  rintro (⟨r, hr, -⟩ | hblack | ⟨hsubst, -⟩)
  · cases hr
  · exact ne_nil_of_onList hblack rfl
  · cases hsubst

/-- Without an allowlist the command is asked about. -/
theorem shell_tiers_decide_rm : ∃ p,
    transpile plainTexts (clawEnvelope []) (missionToolRules scribe) = .ok p ∧
    (evaluate plainHost .posix p.toPolicy localExecToolsName localExecToolsName
      rmCall).action = .approve := by
  have hemit : transpile plainTexts (clawEnvelope []) (missionToolRules scribe) = .ok _ := rfl
  refine ⟨_, hemit, ?_⟩
  have htiers := (shell_tiers_decide hemit rfl rfl (clawEnvelope_uncovered [] _)).2 (onList_rm [])
    (clawEnvelope_not_denied [] _)
  exact htiers.mpr fun h => h.2.1 rfl

/-- With `rm` on the allowlist as well, the command that asks always is allowed. -/
theorem allowlist_precedes_ask : ∃ env g p,
    resolveEnvelope plainTexts clawSections "default" = .ok env ∧
    env.axes.lookup .shell = some g ∧
    transpile plainTexts env (missionToolRules scribe) = .ok p ∧
    Uncovered plainTexts env ⟨plainHost, .posix, rmCall, none⟩ ∧
    OnList ⟨plainHost, .posix, rmCall, none⟩ g.askAlways ∧
    ¬ Denied env g ⟨plainHost, .posix, rmCall, none⟩ ∧
    (evaluate plainHost .posix p.toPolicy localExecToolsName localExecToolsName
      rmCall).action = .allow :=
  ⟨clawEnvelope [rmItem], clawGrant [rmItem], _, rfl, rfl, rfl,
    clawEnvelope_uncovered _ _, onList_rm _, clawEnvelope_not_denied _ _, by decide⟩

end Contenox.AgentDecl
