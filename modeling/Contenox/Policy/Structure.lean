/-
# The approval gate's reading of a shell line

`hitlservice/shellstructure.go` walks the syntax tree of a line and collects every simple
command in it.  Then it goes on: a command that hands text to another shell (`sh -c`, `eval`,
`xargs`, a printed payload piped into a shell) has that text opened and collected too, at
most `maxRevealDepth` levels deep and while fewer than `maxRevealedCommands` commands have
been collected.

The recursion of the source goes down one level of depth at every payload.  `Deeper` holds
what may be called one level down, `none` at the last level, so that each function of the
source is a plain definition here and the recursion is on the number of levels left
(`deeperAt`).
-/
import Contenox.Shell.Line

namespace Contenox.Hitl

open Lib Shell GoStrings

/-! ## 1. What a reading is -/

/-- `unclearedCommandNames`: programs an upgrade never vouches for. -/
def unclearedCommandNames : List String :=
  ["eval", "exec", "source", ".",
   "sh", "bash", "dash", "ash", "ksh", "zsh", "fish",
   "env", "command", "builtin", "xargs",
   "nohup", "setsid", "timeout", "watch", "time",
   "sudo", "doas", "su", "find",
   "export", "set", "unset", "readonly", "local",
   "alias", "unalias", "declare", "typeset", "trap",
   "shift", "getopts", "ulimit", "umask"]

/-- `shellReading`. -/
structure ShellReading where
  analyzed : Bool
  parsed : Bool
  commands : List Step
  redirects : List RedirectInfo
  hasCmdSubst : Bool
  hasProcSubst : Bool
  hasArithmExp : Bool
  upgradable : Bool
  deriving DecidableEq, Repr

/-- The zero `shellReading`. -/
def ShellReading.zero : ShellReading := ⟨false, false, [], [], false, false, false, false⟩

/-- `r.commands = append(r.commands, step)`. -/
def ShellReading.addCommand (r : ShellReading) (step : Step) : ShellReading :=
  { r with commands := r.commands ++ [step] }

def maxRevealDepth : Nat := 4

def maxRevealedCommands : Nat := 256

def nestedShellNames : List String := ["sh", "bash", "dash", "ash", "ksh", "zsh", "fish"]

/-! ## 2. The text a wrapper hands on -/

/-- The option scan of `dashCPayload`, from the word after the program on. -/
def dashCScan : List String → Option String
  | [] => none
  | w :: ws =>
    if w = "" ∨ w = "-" ∨ w = "--" ∨ GoStrings.hasPrefix w "-" = false then none
    else if (w.toList.drop 1).contains 'c' then
      match ws with
      | payload :: _ => if payload = "" then none else some payload
      | [] => none
    else dashCScan ws

/-- `dashCPayload`: the text after the first option word with a `c` in it. -/
def dashCPayload (words : List String) : Option String := dashCScan (words.drop 1)

def xargsValueOptions : List String :=
  ["-a", "-d", "-E", "-I", "-L", "-n", "-P", "-s",
   "--arg-file", "--delimiter", "--eof", "--replace",
   "--max-lines", "--max-args", "--max-procs",
   "--max-chars", "--process-slot-var"]

/-- The option scan of `xargsCommandWords`. -/
def xargsScan : List String → Option (List String)
  | [] => none
  | w :: ws =>
    if w = "" then none
    else if hasPrefix w "-" = false ∨ w = "-" then some (w :: ws)
    else if w = "--" then (if ws = [] then none else some ws)
    else if xargsValueOptions.contains w then
      match ws with
      | [] => none
      | _ :: rest => xargsScan rest
    else xargsScan ws

/-- `xargsCommandWords`: the command `xargs` will run. -/
def xargsCommandWords (words : List String) : Option (List String) := xargsScan (words.drop 1)

/-- `joinKnown`: the words as one text, when every one of them is known. -/
def joinKnown (words : List String) : Option String :=
  if words = [] ∨ words.contains "" then none else some (join " " words)

def isEchoFlag (w : String) : Bool := ["-n", "-e", "-E", "-ne", "-en", "-nE", "-En"].contains w

/-- `printedPayloads`: what `echo` or `printf` would print, as written and decoded. -/
def printedPayloads : List String → List String
  | [] => []
  | program :: args =>
    let base := base program
    if base ≠ "echo" ∧ base ≠ "printf" then []
    else
      let rest := if base = "echo" then args.dropWhile isEchoFlag else args
      match joinKnown rest with
      | none => []
      | some raw => if decodeEscapes raw = raw then [raw] else [raw, decodeEscapes raw]

def stmtCallWords (s : Stmt) : Option (List String) :=
  match s.cmd with
  | some (.callExpr _ args) => if args.isEmpty then none else some (lenientWords args)
  | _ => none

/-- `consumerEvaluatesStdin`: the right side of a pipe runs what it reads. -/
def consumerEvaluatesStdin (s : Stmt) : Bool :=
  match stmtCallWords s with
  | some (program :: _) =>
    let base := base program
    program ≠ "" && (nestedShellNames.contains base || base = "eval" || base = "source" ||
      base = ".")
  | _ => false

/-! ## 3. Collecting -/

/-- What may be called one level down. -/
structure Deeper where
  source : String → ShellReading → ShellReading
  words : List String → ShellReading → ShellReading

variable (deeper : Option Deeper)

/-- `peelWrapper`: opens the text a wrapper hands on.  `none` is the last level. -/
def peelWrapper (words : List String) (r : ShellReading) : ShellReading :=
  match deeper, words with
  | some below, program :: args =>
    let base := base program
    if program = "" then r
    else if nestedShellNames.contains base then
      match dashCPayload (program :: args) with
      | some payload => below.source payload r
      | none => r
    else if base = "xargs" then
      match xargsCommandWords (program :: args) with
      | some rest => below.words rest r
      | none => r
    else if base = "eval" then
      match joinKnown args with
      | some src => below.source src r
      | none => r
    else r
  | _, _ => r

def revealWords (words : List String) (r : ShellReading) : ShellReading :=
  if maxRevealedCommands ≤ r.commands.length then r
  else
    match words with
    | [] => r
    | program :: args =>
      if program = "" then r
      else peelWrapper deeper (program :: args) (r.addCommand (wordsFromValues (program :: args)))

/-- `revealPipedPayload`: a printed text piped into something that runs it. -/
def revealPipedPayload (x y : Stmt) (r : ShellReading) : ShellReading :=
  match deeper, stmtCallWords x with
  | some below, some producer =>
    if consumerEvaluatesStdin y then
      (printedPayloads producer).foldl (fun r src => below.source src r) r
    else r
  | _, _ => r

/-- The call branch of `collectShellNodes`. -/
def collectCall (known : List (String × String))
    (assigns : List Assign) (args : List Word) (r : ShellReading) : ShellReading :=
  let r := if args.isEmpty then r else r.addCommand (stepFromCall assigns args)
  let r := peelWrapper deeper (lenientWords args) r
  match resolveAssignedWords args known with
  | some words => revealWords deeper words r
  | none => r

/-- What `collectShellNodes` does at one node of the walk. -/
def collectNode (known : List (String × String)) (r : ShellReading) (n : Node) : ShellReading :=
  match n with
  | .stmt s =>
    let r := { r with redirects := r.redirects ++ s.redirs.map redirectView }
    match s.cmd with
    | some (.callExpr assigns args) => collectCall deeper known assigns args r
    | some (.binaryCmd op x y) => if op = .pipe then revealPipedPayload deeper x y r else r
    | _ => r
  | .part (.cmdSubst _) => { r with hasCmdSubst := true }
  | .part (.procSubst _) => { r with hasProcSubst := true }
  | .part (.arithmExp _) => { r with hasArithmExp := true }
  | _ => r

def collectShellNodes (f : File) (r : ShellReading) : ShellReading :=
  f.walk.foldl (collectNode deeper (literalAssignments f)) r

def revealSource (parser : Parser) (deeper : Option Deeper) (src : String) (r : ShellReading) :
    ShellReading :=
  let src := trimSpace src
  if maxRevealedCommands ≤ r.commands.length then r
  else if src = "" ∨ maxLineBytes < src.utf8ByteSize then r
  else
    match parseFile parser src with
    | some (f, _) => collectShellNodes deeper f r
    | none => r

/-- What is one level down when `n` levels are left. -/
def deeperAt (parser : Parser) : Nat → Option Deeper
  | 0 => none
  | n + 1 => some ⟨revealSource parser (deeperAt parser n), revealWords (deeperAt parser n)⟩

/-! ## 4. What an allow may rest on -/

/-- `callClearedForUpgrade`.  No assignment name is cleared in the source, so a call with a
prefix assignment never is. -/
def callClearedForUpgrade (assigns : List Assign) (args : List Word) : Bool :=
  match args with
  | [] => false
  | program :: _ =>
    assigns.isEmpty && args.all (fun w => (literalWord w).isSome) &&
      match literalWord program with
      | some name => name ≠ "" && !unclearedCommandNames.contains (base name)
      | none => false

/-- `stmtClearedForUpgrade`: simple commands joined by `&&`, `||` and `|`, nothing else. -/
def stmtClearedForUpgrade : Stmt → Bool
  | .mk (some (.callExpr assigns args)) redirs negated background coprocess disown =>
    !(negated || background || coprocess || disown) && redirs.isEmpty &&
      callClearedForUpgrade assigns args
  | .mk (some (.binaryCmd op x y)) redirs negated background coprocess disown =>
    !(negated || background || coprocess || disown) && redirs.isEmpty &&
      match op with
      | .pipeAll => false
      | _ => stmtClearedForUpgrade x && stmtClearedForUpgrade y
  | _ => false

def fileClearedForUpgrade (f : File) : Bool :=
  match f.stmts with
  | [s] => stmtClearedForUpgrade s
  | _ => false

def analyzeShellArgs (parser : Parser) (goos : String) (trusted : Kind) (args : Args) :
    ShellReading :=
  match lineFromArgs parser args trusted goos with
  | none => ShellReading.zero
  | some line =>
    if line.readable then
      match line.parsed, line.file with
      | true, some f =>
        let r := collectShellNodes (deeperAt parser maxRevealDepth) f
          { ShellReading.zero with analyzed := true, parsed := true }
        { r with upgradable := !line.bashOnly && fileClearedForUpgrade f }
      | _, _ => { ShellReading.zero with analyzed := true }
    else ShellReading.zero

/-! ## 5. Lists of names and of prefixes -/

/-- The entries of a comma-separated list of names, trimmed, the empty ones left out. -/
def listNames (list : String) : List String :=
  ((split list ',').map trimSpace).filter (· ≠ "")

/-- `structuralCommandInList`: the first command of the reading whose basename is listed. -/
def structuralCommandInList (r : ShellReading) (list : String) : Option Step :=
  if r.parsed then
    r.commands.find? fun cmd => cmd.base ≠ "" && (listNames list).contains cmd.base
  else none

def structuralCommandSubstitution (r : ShellReading) : Bool :=
  r.parsed && (r.hasCmdSubst || r.hasProcSubst || r.hasArithmExp)

/-- `allowlistProgramWord`: a relative path stays as it is spelled. -/
def allowlistProgramWord (word : String) : String :=
  if !isAbs word && containsAny word "/\\" then word
  else base word

/-- `prefixListMatchesTokens`: some entry's words are a beginning of the tokens. -/
def prefixListMatchesTokens (tokens : List String) (prefixList : String) : Bool :=
  (split prefixList ',').any fun entry =>
    let want := fields entry
    !want.isEmpty && want.isPrefixOf tokens

/-- `unknowableWord`: equal to no word of a prefix. -/
def unknowableWord : String := "\x00 not statically knowable"

/-- `tokensOf`; `[]` for a command without a name. -/
def tokensOf (cmd : Step) : List String :=
  let words :=
    if cmd.literal && !cmd.words.isEmpty then cmd.words
    else if cmd.name ≠ "" then cmd.name :: List.replicate (cmd.argCount - 1) unknowableWord
    else []
  match words with
  | [] => []
  | program :: rest => allowlistProgramWord program :: rest

def structuralPrefixAllowed (r : ShellReading) (prefixList : String) : Bool :=
  trimSpace prefixList ≠ "" &&
    (r.analyzed && r.parsed && r.upgradable && decide (2 ≤ r.commands.length)) &&
    r.commands.all fun cmd =>
      cmd.literal && !cmd.words.isEmpty && cmd.assigns.isEmpty &&
        !unclearedCommandNames.contains cmd.base &&
        prefixListMatchesTokens (tokensOf cmd) prefixList

/-- `structuralContradictsPrefix`: some command that can be named is not on the list. -/
def structuralContradictsPrefix (r : ShellReading) (prefixList : String) : Bool :=
  r.parsed && trimSpace prefixList ≠ "" &&
    r.commands.any fun cmd =>
      !(tokensOf cmd).isEmpty && !prefixListMatchesTokens (tokensOf cmd) prefixList

end Contenox.Hitl
