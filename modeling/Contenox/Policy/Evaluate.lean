/-
# Evaluating a tool call against a policy

`evaluate` of `hitlservice/policy.go`: the first rule that matches decides, and the default
action decides when none does.  A rule matches when its tool names do and every one of its
conditions does; a condition on a list of values matches when SOME value does.

Two notes are taken on the way.  The match note says which command a rule caught, and starts
afresh with every rule.  The trust note says why an allow was withheld, is written by the
first refusal and kept to the end, and is shown on an ask.  Both are explicit state here.
-/
import Contenox.Policy.Trusted
import Contenox.Policy.Glob

namespace Contenox.Hitl

open Lib Shell GoStrings

/-! ## 1. Reading the arguments -/

def conditionValues : ArgValue → List String
  | .str s => [s]
  | .strs l => l
  | .list l => printAll l
  | v => [v.print]

def commandSubstitutionPatterns : List String :=
  ["$(", "`", "<(", ">(", "$[", "$\x7b\x7d", "$(("]

def detectCommandSubstitution (args : Args) : Bool :=
  args.entries.any fun e =>
    (conditionValues e.2).any fun s => commandSubstitutionPatterns.any (contains s)

def getCommandFromArgs (args : Args) : String :=
  match args.get "command" with
  | some (.str cmd) => cmd
  | _ =>
    match args.get "args" with
    | some (.str s) => (fields s).headD ""
    | some (.strs l) => l.headD ""
    | _ => ""

def commandBasename (args : Args) : String :=
  let cmd := getCommandFromArgs args
  if cmd = "" then "" else (fields (base cmd)).headD ""

def commandBasenameInList (args : Args) (list : String) : Bool :=
  commandBasename args ≠ "" && (listNames list).contains (commandBasename args)

def shellControlChars : String := ";|&><`\n\r"

/-- The words of a call before they are looked at. -/
def rawTokens (args : Args) : List String :=
  let extra := argTokens (args.get "args")
  match args.getStr "command" with
  | some cmd => if trimSpace cmd = "" then extra else fields cmd ++ extra
  | none => extra

/-- `commandTokens`: the words of a call that is not shell text, `none` when one of them
carries a control character or a substitution. -/
def commandTokens (args : Args) : Option (List String) :=
  if modeRequested args then none
  else
    match rawTokens args with
    | [] => none
    | program :: rest =>
      if (program :: rest).any fun t =>
          containsAny t shellControlChars ||
            commandSubstitutionPatterns.any (contains t) then none
      else some (allowlistProgramWord program :: rest)

def isCommandPrefixAllowed (args : Args) (prefixList : String) : Bool :=
  trimSpace prefixList ≠ "" &&
    match commandTokens args with
    | some tokens => prefixListMatchesTokens tokens prefixList
    | none => false

/-- `tokenizerProgramWords`: the FIRST word of the call. -/
def tokenizerProgramWords (args : Args) : List String :=
  match (args.getStr "command").map fields with
  | some (program :: _) => [program]
  | _ => (argTokens (args.get "args")).take 1

/-- `structuralProgramWords`: every program of the reading, none at all when one has no
name. -/
def structuralProgramWords (r : ShellReading) : List String :=
  if r.commands.any fun cmd => cmd.name = "" then [] else r.commands.map Step.name

def urlHostMatches (host : Host) (rawURL patternsCSV : String) : Bool :=
  match host.urlHostname (trimSpace rawURL) with
  | none => false
  | some name =>
    let name := toLower name
    name ≠ "" && (split patternsCSV ',').any fun p =>
      let p := toLower (trimSpace p)
      p ≠ "" && (name = p || (!host.isIP name && hasSuffix name ("." ++ p)))

/-! ## 2. The two notes -/

/-- `matchNote`: the operator that caught a command, and the command. -/
structure MatchNote where
  op : Option ConditionOp
  command : String
  deriving DecidableEq, Repr

def MatchNote.zero : MatchNote := ⟨none, ""⟩

/-- `matchNote.set`: the first command caught stays. -/
def MatchNote.set (n : MatchNote) (op : ConditionOp) (command : String) : MatchNote :=
  if command = "" ∨ n.command ≠ "" then n else ⟨some op, command⟩

/-- `matchNote.detail`. -/
def MatchNote.detail (host : Host) (n : MatchNote) : String :=
  if n.command = "" then ""
  else "shell command " ++ host.quote n.command ++ " matched " ++
    (n.op.map ConditionOp.text).getD ""

/-- What an evaluation carries along: the trust note, `""` for none, and the match note. -/
structure EvalState where
  trustNote : String
  note : MatchNote
  deriving DecidableEq, Repr

def EvalState.noteTrustRefusal (st : EvalState) (msg : String) : EvalState :=
  if st.trustNote = "" then { st with trustNote := msg } else st

/-! ## 3. Matching -/

/-- A call as the gate sees it: the machine, the trusted shell kind, the arguments and the
trusted-binaries block of the policy. -/
structure EvalScope where
  host : Host
  shellKind : Kind
  args : Args
  trusted : Option TrustedBinaries

variable (scope : EvalScope)

/-- `shell`: the reading of the line, the same whenever it is asked for. -/
def EvalScope.shell : ShellReading :=
  analyzeShellArgs scope.host.parser scope.host.goos scope.shellKind scope.args

def trusts (names : List String) (st : EvalState) : Bool × EvalState :=
  match scope.trusted with
  | none => (true, st)
  | some tb =>
    if tb.enforced then
      if names = [] then
        (false, st.noteTrustRefusal
          "the allowed command could not be named for a trusted-binary check — allow refused")
      else
        match names.findSome? (verifyCommand scope.host tb) with
        | some msg => (false, st.noteTrustRefusal msg)
        | none => (true, st)
    else (true, st)

/-- `commandInListMatch`: the command that is on the list. -/
def commandInListMatch (list : String) : Option String :=
  if commandBasenameInList scope.args list then some (commandBasename scope.args)
  else
    (structuralCommandInList scope.shell list).map fun cmd =>
      if cmd.display = "" then cmd.base else cmd.display

def commandSubstitutionMatch : Bool :=
  detectCommandSubstitution scope.args || structuralCommandSubstitution scope.shell

/-- The `gate` of `commandPrefixAllowMatch`: only an allow is withheld. -/
def gate (action : Action) (names : List String) (st : EvalState) : Bool × EvalState :=
  if action = .allow then trusts scope names st else (true, st)

def commandPrefixAllowMatch (prefixList : String) (action : Action)
    (st : EvalState) : Bool × EvalState :=
  if isCommandPrefixAllowed scope.args prefixList then
    if structuralContradictsPrefix scope.shell prefixList then (false, st)
    else gate scope action (tokenizerProgramWords scope.args) st
  else if structuralPrefixAllowed scope.shell prefixList then
    gate scope action (structuralProgramWords scope.shell) st
  else (false, st)

/-- One value against one condition. -/
def valueMatches (c : Condition) (action : Action) (s : String)
    (st : EvalState) : Bool × EvalState :=
  match c.op with
  | .eq => (s = c.value, st)
  | .glob => (globMatch scope.host.pathMatch c.value s, st)
  | .host => (urlHostMatches scope.host s c.value, st)
  | .commandBlacklist | .commandAskAlways =>
    match commandInListMatch scope c.value with
    | some name => (true, { st with note := st.note.set c.op name })
    | none => (false, st)
  | .noCommandSubstitution => (commandSubstitutionMatch scope, st)
  | .commandPrefixAllowlist => commandPrefixAllowMatch scope c.value action st
  | .unknown _ => (false, st)

/-- The value loop of `conditionMatches`: it stops at the first value that matches. -/
def anyValueMatches (scope : EvalScope) (c : Condition) (action : Action) :
    List String → EvalState → Bool × EvalState
  | [], st => (false, st)
  | s :: rest, st =>
    let (hit, st) := valueMatches scope c action s st
    if hit then (true, st) else anyValueMatches scope c action rest st

def conditionMatches (c : Condition) (action : Action) (st : EvalState) : Bool × EvalState :=
  match scope.args.get c.key with
  | none => (false, st)
  | some v => anyValueMatches scope c action (conditionValues v) st

/-- The condition loop of `ruleMatches`: it stops at the first condition that fails. -/
def allConditionsMatch (scope : EvalScope) (action : Action) :
    List Condition → EvalState → Bool × EvalState
  | [], st => (true, st)
  | c :: rest, st =>
    let (ok, st) := conditionMatches scope c action st
    if ok then allConditionsMatch scope action rest st else (false, st)

/-- The name test of `ruleMatches`. -/
def Rule.covers (r : Rule) (toolsName toolName : String) : Bool :=
  (r.tools = "" || r.tools = "*" || r.tools = toolsName) &&
    (r.tool = "" || r.tool = "*" || r.tool = toolName)

def ruleMatches (r : Rule) (toolsName toolName : String) (st : EvalState) : Bool × EvalState :=
  if r.covers toolsName toolName then allConditionsMatch scope r.action r.when st
  else (false, st)

/-! ## 4. The decision -/

/-- `EvaluationResult.Reason`. -/
inductive Reason
  | matchedRule
  | defaultAction
  deriving DecidableEq, Repr

/-- `EvaluationResult`; the policy's name is filled in by the caller. -/
structure EvaluationResult where
  action : Action
  matchedRule : Option Nat
  reason : Reason
  timeoutS : Int
  onTimeout : Option Action
  detail : String
  deriving DecidableEq, Repr

/-- `detailWithTrustNote`: only an ask shows the trust note. -/
def detailWithTrustNote (base : String) (action : Action) (trustNote : String) : String :=
  if action ≠ .approve ∨ trustNote = "" then base
  else if base = "" then trustNote
  else base ++ "; " ++ trustNote

/-- The rule loop of `evaluate`, `i` being the index of the first rule of the list. -/
def evaluateFrom (scope : EvalScope) (defaultAction : Option Action)
    (toolsName toolName : String) : Nat → List Rule → String → EvaluationResult
  | _, [], trustNote =>
    let action := defaultAction.getD .approve
    { action := action
      matchedRule := none
      reason := .defaultAction
      timeoutS := 0
      onTimeout := none
      detail := detailWithTrustNote "" action trustNote }
  | i, r :: rest, trustNote =>
    let (hit, st) := ruleMatches scope r toolsName toolName ⟨trustNote, MatchNote.zero⟩
    if hit then
      { action := r.action
        matchedRule := some i
        reason := .matchedRule
        timeoutS := r.timeoutS
        onTimeout := r.onTimeout
        detail := detailWithTrustNote (st.note.detail scope.host) r.action st.trustNote }
    else evaluateFrom scope defaultAction toolsName toolName (i + 1) rest st.trustNote

def evaluate (host : Host) (shellKind : Kind) (p : Policy) (toolsName toolName : String)
    (args : Args) : EvaluationResult :=
  evaluateFrom ⟨host, shellKind, args, p.trustedBinaries⟩ p.defaultAction toolsName toolName 0
    p.rules ""

end Contenox.Hitl
