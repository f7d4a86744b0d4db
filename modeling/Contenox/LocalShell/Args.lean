/-
# Two readers of one shell call

A `local_shell` call reaches the tool as an input value and a map of fixed arguments.  The
approval gate merges the two with `policyEvalArgs` and hands the result to the policy, which
reads it with `LineFromArgs`.  The tool merges them with its own `parseArgs` and runs what
comes out.  This file holds the two merges, as the source has them.

They do not merge alike.  The gate lets a fixed argument win by being there, the tool by not
being empty; the gate splits a string of arguments at white space, the tool honours quotes;
the gate takes five spellings of the shell flag, the tool two; and a bare string is the
standard input to the gate, and the command to the tool.
-/
import Contenox.Shell.Line

namespace Contenox.LocalShell

open Lib Shell

/-! ## 1. The call -/

/-- `ToolsCall.Args`, a `map[string]string`. -/
structure ToolsArgs where
  entries : List (String × String)
  nodup : (entries.map Prod.fst).Nodup

/-- `tools.Args[k]`, with Go's zero value for a key that is not there. -/
def ToolsArgs.get (t : ToolsArgs) (k : String) : String := (t.entries.lookup k).getD ""

/-- The input value of a call. -/
inductive Input
  | str (s : String)
  | map (m : Args)
  | other

/-! ## 2. The gate's merge -/

/-- What the input alone shows the gate. -/
def inputArgs : Input → Args
  | .map m => m
  | .str s => if s = "" then Args.empty else Args.empty.set "stdin" (.str s)
  | .other => Args.empty

/-- `policyEvalArgs`: the fixed arguments overwrite the input's. -/
def policyEvalArgs (input : Input) (tools : ToolsArgs) : Args :=
  tools.entries.foldl (fun args e => args.set e.1 (.str e.2)) (inputArgs input)

/-! ## 3. The tool's merge -/

/-- What `parseArgs` asks of the machine. -/
structure ExecEnv where
  defaultTimeout : Int
  /-- `filepath.Abs` -/
  abs : String → Option String
  /-- `time.ParseDuration` -/
  parseDuration : String → Option Int
  /-- `%T` of `fmt` -/
  typeName : ArgValue → String

/-- The state of `splitShellArgs`: the word so far and whether a quote or escape is open. -/
structure SplitState where
  current : List Char
  inSingle : Bool
  inDouble : Bool
  escaped : Bool

/-- The loop of `splitShellArgs`. -/
def splitShellFrom (st : SplitState) : List Char → List (List Char)
  | [] => if st.current = [] then [] else [st.current]
  | c :: cs =>
    if st.escaped then splitShellFrom { st with current := st.current ++ [c], escaped := false } cs
    else if c = '\\' && !st.inSingle then splitShellFrom { st with escaped := true } cs
    else if c.toNat = 0x27 && !st.inDouble then
      splitShellFrom { st with inSingle := !st.inSingle } cs
    else if c.toNat = 0x22 && !st.inSingle then
      splitShellFrom { st with inDouble := !st.inDouble } cs
    else if (c = ' ' || c = '\t' || c = '\n') && !st.inSingle && !st.inDouble then
      if st.current = [] then splitShellFrom st cs
      else st.current :: splitShellFrom { st with current := [] } cs
    else splitShellFrom { st with current := st.current ++ [c] } cs

/-- `splitShellArgs`: words, with quotes and escapes taken off. -/
def splitShellArgs (s : String) : List String :=
  (splitShellFrom ⟨[], false, false, false⟩ s.toList).map String.ofList

/-- `LocalExecToolsName`. -/
def localExecToolsName : String := "local_shell"

/-- The names `parseArgs` knows, in the order `rejectUnknownArgs` prints them. -/
def knownArgs : List String := ["args", "command", "cwd", "shell", "stdin", "timeout"]

/-- `rejectUnknownArgs`: the complaint about names that are not known. -/
def rejectUnknownArgs (m : Args) : Option String :=
  let unknown := (m.entries.map Prod.fst).filter fun k => !knownArgs.contains k
  if unknown = [] then none
  else
    some (localExecToolsName ++ ": unknown argument(s): " ++
      GoStrings.join ", " (unknown.mergeSort fun a b => a ≤ b) ++ " (allowed: " ++
      GoStrings.join ", " knownArgs ++ ")")

/-- The list branch of `stringSliceArg`, from index `i` on. -/
def stringItems (env : ExecEnv) (key : String) : Nat → List ArgValue → Except String (List String)
  | _, [] => .ok []
  | i, v :: vs =>
    match v with
    | .str s => (stringItems env key (i + 1) vs).map fun rest => s :: rest
    | v =>
      .error (localExecToolsName ++ ": " ++ key ++ "[" ++ toString i ++
        "] must be a string, got " ++ env.typeName v)

variable (env : ExecEnv)

def stringSliceArg (key : String) : ArgValue → Except String (List String)
  | .str s => .ok (splitShellArgs s)
  | .strs l => .ok l
  | .list l => stringItems env key 0 l
  | v =>
    .error (localExecToolsName ++ ": " ++ key ++ " must be a string or array of strings, got " ++
      env.typeName v)

/-- The spellings of the shell flag the tool takes. -/
def flagSet (s : String) : Bool := GoStrings.equalFold s "true" || s = "1"

/-- What `parseArgs` returns. -/
structure ParsedArgs where
  command : String
  args : List String
  cwd : String
  timeout : Int
  useShell : Bool
  stdin : String
  deriving DecidableEq, Repr

/-- `filepath.Clean`, made absolute where that works. -/
def ExecEnv.cleanCwd (d : String) : String :=
  (env.abs (GoStrings.clean d)).getD (GoStrings.clean d)

/-- What the fixed arguments alone say. -/
def fromTools (tools : ToolsArgs) : ParsedArgs where
  command := tools.get "command"
  args := if tools.get "args" = "" then [] else splitShellArgs (tools.get "args")
  cwd := if tools.get "cwd" = "" then "" else env.cleanCwd (tools.get "cwd")
  timeout :=
    if tools.get "timeout" = "" then env.defaultTimeout
    else (env.parseDuration (tools.get "timeout")).getD env.defaultTimeout
  useShell := tools.get "shell" ≠ "" && flagSet (tools.get "shell")
  stdin := ""

/-- The string branch: the input is the standard input, and the command if there is none. -/
def withString (p : ParsedArgs) (v : String) : ParsedArgs :=
  { p with
    stdin := v
    command := if p.command = "" then v else p.command
    args := if p.command = "" ∧ p.useShell = true then [] else p.args }

/-- The args of the map branch: the map's, when the fixed ones gave no word. -/
def mapWords (p : ParsedArgs) (m : Args) : Except String (List String) :=
  match m.get "args" with
  | some a => if p.args = [] then stringSliceArg env "args" a else .ok p.args
  | none => .ok p.args

/-- The shell flag of the map branch. -/
def mapShell (p : ParsedArgs) (m : Args) : Bool :=
  p.useShell ||
    match m.get "shell" with
    | some (.bool b) => b
    | some (.str s) => flagSet s
    | _ => false

/-- The map branch, after the names were checked. -/
def withMap (p : ParsedArgs) (m : Args) (words : List String) : ParsedArgs where
  command := if p.command = "" then (m.getStr "command").getD "" else p.command
  args := words
  cwd :=
    match m.getStr "cwd" with
    | some d => if p.cwd = "" then env.cleanCwd d else p.cwd
    | none => p.cwd
  timeout :=
    match (m.getStr "timeout").bind env.parseDuration with
    | some d => if p.timeout = env.defaultTimeout then d else p.timeout
    | none => p.timeout
  useShell := mapShell p m
  stdin := (m.getStr "stdin").getD ""

/-- The last check of `parseArgs`. -/
def requireCommand (p : ParsedArgs) : Except String ParsedArgs :=
  if p.command = "" then
    .error "local_shell: command is required (tools.args.command or input)"
  else .ok p

def parseArgs (tools : ToolsArgs) (input : Input) : Except String ParsedArgs :=
  let p := fromTools env tools
  match input with
  | .str v => requireCommand (withString p v)
  | .other => requireCommand p
  | .map m =>
    match rejectUnknownArgs m with
    | some msg => .error msg
    | none =>
      match mapWords env p m with
      | .error msg => .error msg
      | .ok words => requireCommand (withMap env p m words)

end Contenox.LocalShell
