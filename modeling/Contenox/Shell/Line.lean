/-
# A command line as the policies read it

`shellline.Parse` turns a command line into the simple commands it would run, in order, and
`LineFromArgs` finds the line a tool call carries.  Both policy surfaces, the approval gate
and the shell tool's own command policy, read a line through this package.

The parser is third-party code and is a parameter, `Parser`: the POSIX grammar, which is
what `sh` accepts, and the wider bash grammar.
-/
import Contenox.Shell.Words
import Contenox.Lib.Table

namespace Contenox.Shell

open Lib GoStrings

/-! ## 1. The arguments of a tool call -/

/-- A value in a `map[string]any`: the shapes the code tells apart.  A value of any other
type matters only by the text `%v` prints for it. -/
inductive ArgValue
  | null
  | bool (b : Bool)
  | str (s : String)
  | strs (l : List String)
  | list (l : List ArgValue)
  | other (text : String)

mutual

/-- `fmt.Sprintf("%v", v)`. -/
def ArgValue.print : ArgValue → String
  | .null => "<nil>"
  | .bool b => if b then "true" else "false"
  | .str s => s
  | .strs l => "[" ++ join " " l ++ "]"
  | .list l => "[" ++ join " " (printAll l) ++ "]"
  | .other text => text

def printAll : List ArgValue → List String
  | [] => []
  | v :: vs => v.print :: printAll vs

end

/-- `v.(string)`. -/
def strOf : Option ArgValue → Option String
  | some (.str s) => some s
  | _ => none

/-- A `map[string]any`: entries with distinct keys. -/
structure Args where
  entries : List (String × ArgValue)
  nodup : (entries.map Prod.fst).Nodup

namespace Args

/-- The empty map. -/
def empty : Args := ⟨[], List.nodup_nil⟩

/-- `args[k]`. -/
def get (a : Args) (k : String) : Option ArgValue := a.entries.lookup k

/-- `args[k] = v`. -/
def set (a : Args) (k : String) (v : ArgValue) : Args where
  entries := a.entries.filter (fun e => e.1 ≠ k) ++ [(k, v)]
  nodup := by
    rw [List.map_append, List.nodup_append]
    refine ⟨a.nodup.sublist (List.filter_sublist.map _), by simp, ?_⟩
    intro x hx y hy
    obtain ⟨e, he, rfl⟩ := List.mem_map.mp hx
    obtain rfl : y = k := by simpa using hy
    exact by simpa using (List.mem_filter.mp he).2

/-- `args[k].(string)`. -/
def getStr (a : Args) (k : String) : Option String := strOf (a.get k)

@[simp] theorem get_empty (k : String) : empty.get k = none := rfl

theorem get_set (a : Args) (k k' : String) (v : ArgValue) :
    (a.set k v).get k' = if k' = k then some v else a.get k' :=
  Assoc.lookup_filter_append a.entries k k' v

end Args

/-- The value of a call's `shell` that asks for shell interpretation. -/
def modeOf : Option ArgValue → Bool
  | some (.bool b) => b
  | some (.str s) =>
    ["true", "1", "yes", "y", "on"].contains (toLower (trimSpace s))
  | _ => false

/-- `ModeRequested`: the call asked for shell interpretation. -/
def modeRequested (args : Args) : Bool := modeOf (args.get "shell")

/-- `ArgTokens`: a call's `args`, a list or one string of words. -/
def argTokens : Option ArgValue → List String
  | none => []
  | some .null => []
  | some (.str s) => fields s
  | some (.strs l) => l
  | some (.list l) => printAll l
  | some v => [v.print]

/-! ## 2. Which shell will read the line -/

/-- `Kind`.  `unset` is the empty string: no trusted kind was given. -/
inductive Kind
  | unset
  | posix
  | powerShell
  | cmd
  | unknown
  deriving DecidableEq, Repr

/-- `Structural`: whether a line of this kind can be read at all. -/
def structural (trusted : Kind) (goos : String) : Bool :=
  match trusted with
  | .posix => true
  | .unset => goos ≠ "windows"
  | _ => false

/-- The shell parser, in its two grammars. -/
structure Parser where
  posix : String → Option File
  bash : String → Option File

/-- `MaxLineBytes`. -/
def maxLineBytes : Nat := 64 * 1024

/-- `ParseFile`: the tree, and whether only the bash grammar accepts the text. -/
def parseFile (parser : Parser) (src : String) : Option (File × Bool) :=
  match parser.posix src with
  | some f => some (f, false)
  | none => (parser.bash src).map fun f => (f, true)

/-! ## 3. One simple command -/

/-- What joins a step to the one before it. -/
inductive Operator
  | start
  | and
  | or
  | seq
  | pipe
  deriving DecidableEq, Repr

/-- One simple command: a program and its arguments, or what could be read of them. -/
structure Step where
  operator : Operator
  name : String
  base : String
  display : String
  words : List String
  literal : Bool
  argCount : Nat
  assigns : List String
  deriving DecidableEq, Repr

/-- The zero `Step`. -/
def Step.zero : Step := ⟨.start, "", "", "", [], false, 0, []⟩

def maxDisplayRunes : Nat := 60

/-- `FlattenDisplay`: control characters flattened, a long command cut. -/
def flattenDisplay (parts : List String) : String :=
  let s := (join " " parts).toList.map fun c =>
    if c.toNat < 0x20 ∨ c.toNat = 0x7f then ' ' else c
  if maxDisplayRunes < s.length then String.ofList (s.take (maxDisplayRunes - 1)) ++ "…"
  else String.ofList s

def displayOf (args : List Word) : String :=
  flattenDisplay (args.map fun w => (wordName w).getD "…")

/-- `StepFromCall`: the words are there only when every one of them is literal. -/
def stepFromCall (assigns : List Assign) (args : List Word) : Step :=
  let names := assigns.map fun a => a.name.getD ""
  match args with
  | [] => { Step.zero with assigns := names }
  | program :: _ =>
    let name := (wordName program).getD ""
    let literal := args.all fun w => (literalWord w).isSome
    { operator := .start
      name := name
      base := if name = "" then "" else base name
      display := displayOf args
      words := if literal then args.filterMap literalWord else []
      literal := literal
      argCount := args.length
      assigns := names }

/-- `LenientWords`: the words of a call, `""` for one that exists at run time only. -/
def lenientWords (args : List Word) : List String := args.map fun w => (wordName w).getD ""

/-- `WordsFromValues`: a command that came from a decoded payload. -/
def wordsFromValues : List String → Step
  | [] => Step.zero
  | program :: rest =>
    let words := program :: rest
    let literal := words.all fun w => w ≠ ""
    { operator := .start
      name := program
      base := base program
      display := flattenDisplay words
      words := if literal then words else []
      literal := literal
      argCount := words.length
      assigns := [] }

/-- `LiteralAssignments`: the plain `NAME=value` assignments of a line, last one first, so
that a lookup finds the one that counts. -/
def literalAssignments (f : File) : List (String × String) :=
  f.walk.foldl (fun out n =>
    match n with
    | .assign (.mk false false (some name) (some value) false _ _) =>
      match wordName value with
      | some v => if v = "" then out else (name, v) :: out
      | none => out
    | _ => out) []

/-- One word with the line's assignments substituted, and whether it took one. -/
def resolveAssignedWord (assigns : List (String × String)) (w : Word) : String × Bool :=
  match wordName w with
  | some v => (v, false)
  | none =>
    match (soleParamName w).bind fun name => assigns.lookup name with
    | some v => (v, true)
    | none => ("", false)

/-- `ResolveAssignedWords`: `CMD=x; $CMD -v` is `x -v`. -/
def resolveAssignedWords (args : List Word) (assigns : List (String × String)) :
    Option (List String) :=
  let out := args.map (resolveAssignedWord assigns)
  match out with
  | [] => none
  | program :: _ =>
    if assigns.isEmpty ∨ out.all (fun r => !r.2) ∨ program.1 = "" then none
    else some (out.map Prod.fst)

/-! ## 4. The line -/

/-- A redirection, with its target when that is literal. -/
structure RedirectInfo where
  op : String
  target : String
  heredoc : Bool
  deriving DecidableEq, Repr

/-- `UnknowableTarget`. -/
def unknowableTarget : String := "(not statically knowable)"

/-- `RedirectView`. -/
def redirectView : Redirect → RedirectInfo
  | .mk op word hdoc =>
    { op := op
      target :=
        match word with
        | some w => (wordName w).getD unknowableTarget
        | none => ""
      heredoc := hdoc.isSome }

/-- What one command line would do, in execution order. -/
structure Line where
  readable : Bool
  parsed : Bool
  bashOnly : Bool
  steps : List Step
  file : Option File
  redirects : List RedirectInfo
  commandSubst : Bool
  processSubst : Bool
  arithmExp : Bool
  background : Bool
  negated : Bool
  coprocess : Bool
  control : Bool
  pipelines : Nat

/-- The zero `Line`. -/
def Line.zero : Line :=
  ⟨false, false, false, [], none, [], false, false, false, false, false, false, false, 0⟩

/-- The marks and redirections of one statement. -/
def Line.noteStmt (line : Line) (s : Stmt) : Line :=
  { line with
    background := line.background || s.background
    negated := line.negated || s.negated
    coprocess := line.coprocess || s.coprocess
    redirects := line.redirects ++ s.redirs.map redirectView }

/-- `walkStmt`: the simple commands of a statement, top level and in order. -/
def walkStmt (line : Line) (op : Operator) : Stmt → Line
  | .mk (some (.callExpr assigns args)) redirs n b c d =>
    let line := line.noteStmt (.mk (some (.callExpr assigns args)) redirs n b c d)
    { line with steps := line.steps ++ [{ stepFromCall assigns args with operator := op }] }
  | .mk (some (.binaryCmd bop x y)) redirs n b c d =>
    let line := line.noteStmt (.mk (some (.binaryCmd bop x y)) redirs n b c d)
    match bop with
    | .andStmt => walkStmt (walkStmt line op x) .and y
    | .orStmt => walkStmt (walkStmt line op x) .or y
    | .pipe => walkStmt (walkStmt { line with pipelines := line.pipelines + 1 } op x) .pipe y
    | .pipeAll => walkStmt (walkStmt { line with pipelines := line.pipelines + 1 } op x) .pipe y
  | .mk cmd redirs n b c d =>
    { line.noteStmt (.mk cmd redirs n b c d) with control := true }

/-- The run-time values anywhere in the tree. -/
def Node.isCmdSubst : Node → Bool
  | .part (.cmdSubst _) => true
  | _ => false

def Node.isProcSubst : Node → Bool
  | .part (.procSubst _) => true
  | _ => false

def Node.isArithmExp : Node → Bool
  | .part (.arithmExp _) => true
  | _ => false

/-- The statements of a file after the first one. -/
def collectRest (line : Line) : List Stmt → Line
  | [] => line
  | s :: ss => collectRest (walkStmt line .seq s) ss

def collect (line : Line) (f : File) : Line :=
  let line := { line with
    commandSubst := f.walk.any Node.isCmdSubst
    processSubst := f.walk.any Node.isProcSubst
    arithmExp := f.walk.any Node.isArithmExp }
  match f.stmts with
  | [] => line
  | s :: ss => collectRest (walkStmt line .start s) ss

/-- `Parse`. -/
def parse (parser : Parser) (src : String) (kind : Kind) (goos : String) : Line :=
  if structural kind goos then
    let line := { Line.zero with readable := true }
    if maxLineBytes < src.utf8ByteSize ∨ trimSpace src = "" then line
    else
      match parseFile parser src with
      | none => line
      | some (f, bashOnly) =>
        collect { line with parsed := true, bashOnly := bashOnly, file := some f } f
  else Line.zero

/-- The text of the line a call carries: the command, with its args when shell mode was
asked for; none when the call keeps the two apart. -/
def lineSource (args : Args) : Option String :=
  let command := trimSpace ((args.getStr "command").getD "")
  let extra := argTokens (args.get "args")
  if command = "" then none
  else if modeRequested args then
    if extra = [] then some command else some (command ++ " " ++ join " " extra)
  else if extra = [] then some command else none

/-- `LineFromArgs`; `none` when the call carries no line. -/
def lineFromArgs (parser : Parser) (args : Args) (kind : Kind) (goos : String) : Option Line :=
  match lineSource args with
  | none => none
  | some src =>
    if maxLineBytes < src.utf8ByteSize then none else some (parse parser src kind goos)

/-! ## 5. The tree a line was read from -/

/-- What `collect` never touches. -/
def Line.tree (line : Line) : Option File × Bool × Bool × Bool :=
  (line.file, line.readable, line.parsed, line.bashOnly)

variable (line : Line)

theorem tree_walkStmt (op : Operator) (s : Stmt) : (walkStmt line op s).tree = line.tree := by
  fun_induction walkStmt line op s with
  | case1 => rfl
  | case2 line op x y redirs n b c d line' ih2 ih1
  | case3 line op x y redirs n b c d line' ih2 ih1
  | case4 line op x y redirs n b c d line' ih2 ih1
  | case5 line op x y redirs n b c d line' ih2 ih1 => exact ih1.trans ih2
  | case6 => rfl

theorem tree_collectRest (ss : List Stmt) : (collectRest line ss).tree = line.tree := by
  induction ss generalizing line with
  | nil => rfl
  | cons s ss ih => exact (ih (walkStmt line .seq s)).trans (tree_walkStmt line .seq s)

theorem tree_collect (f : File) : (collect line f).tree = line.tree := by
  unfold collect
  cases f.stmts with
  | nil => rfl
  | cons s ss => exact (tree_collectRest _ ss).trans (tree_walkStmt _ .start s)

variable {args : Args} {src : String}

/-- The line of a call is not blank. -/
theorem trimSpace_lineSource_ne (h : lineSource args = some src) : trimSpace src ≠ "" := by
  unfold lineSource at h
  dsimp only at h
  split at h
  · cases h
  rename_i hne
  obtain ⟨c, hc, hs⟩ := exists_of_trimSpace_ne hne
  have happ : ∃ t, src = trimSpace ((args.getStr "command").getD "") ++ t := by
    split at h
    · split at h
      · exact ⟨"", by simpa using h.symm⟩
      · exact ⟨" " ++ join " " (argTokens (args.get "args")),
          by simpa [String.append_assoc] using h.symm⟩
    · split at h
      · exact ⟨"", by simpa using h.symm⟩
      · cases h
  obtain ⟨t, rfl⟩ := happ
  exact trimSpace_ne_of_mem (by simp [hc]) hs

/-- **A line that can be read is read as its tree.** -/
theorem lineFromArgs_tree {parser : Parser} {kind : Kind} {goos : String} {f : File}
    {bashOnly : Bool} (hs : structural kind goos = true) (hsrc : lineSource args = some src)
    (hlen : src.utf8ByteSize ≤ maxLineBytes) (hf : parseFile parser src = some (f, bashOnly)) :
    ∃ line, lineFromArgs parser args kind goos = some line ∧
      line.tree = (some f, true, true, bashOnly) := by
  have hguard : ¬ (maxLineBytes < src.utf8ByteSize ∨ trimSpace src = "") := by
    rintro (h | h)
    · exact absurd h (Nat.not_lt.mpr hlen)
    · exact trimSpace_lineSource_ne hsrc h
  refine ⟨parse parser src kind goos, ?_, ?_⟩
  · unfold lineFromArgs
    rw [hsrc]
    exact if_neg (Nat.not_lt.mpr hlen)
  · unfold parse
    rw [if_pos hs]
    rw [if_neg hguard, hf]
    exact tree_collect _ _

/-! ## 6. Lines of plain words

What the parser does with the simplest lines there are: words of letters, digits, dots,
dashes and slashes, with spaces between them and line breaks between the commands. -/

/-- A character that means nothing but itself. -/
def plainChar (c : Char) : Bool := c.isAlphanum || "-./ \n".toList.contains c

/-- A simple command of plain words. -/
def plainCommand (words : List String) : Stmt :=
  Stmt.plain (.callExpr [] (words.map fun w => .mk [.lit w]))

/-- The parser on lines of plain words; it accepts no other. -/
def plainParser : Parser where
  posix src :=
    if src.toList.all plainChar then
      some ⟨(((split src '\n').map fields).filter (· ≠ [])).map plainCommand⟩
    else none
  bash _ := none

theorem parseFile_plain {cmds : List (List String)} (hplain : src.toList.all plainChar = true)
    (hcmds : ((split src '\n').map fields).filter (· ≠ []) = cmds) :
    parseFile plainParser src = some (⟨cmds.map plainCommand⟩, false) := by
  simp only [parseFile, plainParser, hplain, if_true, hcmds]

end Contenox.Shell
