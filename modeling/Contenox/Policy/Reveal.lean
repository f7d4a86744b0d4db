/-
# What the gate finds in a line

The blacklist is only as good as the collection it is held against.  This file says what
`analyzeShellArgs` is sure to collect.

* `mem_commands_of_has`: every simple command of the syntax tree, wherever it hangs, with no
  bound of any kind.
* `shown_of_runs`: every command in a text the line hands on to another shell, through any
  stack of the wrappers the gate knows, as long as the stack is at most `maxRevealDepth` high
  and the collection is not full.

`Runs` is the statement of what it means to hand on.  It is written from the shells' side
(`sh`, any options, an option word with a `c`, the text) and does not mention the functions
that find the text.
-/
import Contenox.Policy.Evaluate

namespace Contenox.Hitl

open Lib Shell GoStrings

variable {deeper : Option Deeper}

/-! ## 1. Collecting only adds -/

/-- `r'` has everything `r` has, in the same place. -/
structure Extends (r r' : ShellReading) : Prop where
  commands : r.commands <+: r'.commands
  parsed : r'.parsed = r.parsed
  analyzed : r'.analyzed = r.analyzed

theorem Extends.refl (r : ShellReading) : Extends r r := ⟨List.prefix_refl _, rfl, rfl⟩

theorem Extends.trans {r r' r'' : ShellReading} (h : Extends r r') (h' : Extends r' r'') :
    Extends r r'' :=
  ⟨h.commands.trans h'.commands, h'.parsed.trans h.parsed, h'.analyzed.trans h.analyzed⟩

theorem extends_addCommand (r : ShellReading) (step : Step) : Extends r (r.addCommand step) :=
  ⟨List.prefix_append _ _, rfl, rfl⟩

/-- What is below only adds. -/
structure Deeper.Adds (d : Deeper) : Prop where
  source : ∀ src r, Extends r (d.source src r)
  words : ∀ ws r, Extends r (d.words ws r)

/-- The same for a level that may be the last. -/
def Adds (deeper : Option Deeper) : Prop := ∀ d, deeper = some d → d.Adds

theorem extends_foldl {α : Type} {f : ShellReading → α → ShellReading}
    (hf : ∀ r a, Extends r (f r a)) (l : List α) (r : ShellReading) : Extends r (l.foldl f r) := by
  induction l generalizing r with
  | nil => exact .refl r
  | cons a l ih => exact (hf r a).trans (ih (f r a))

section
variable (hd : Adds deeper)
include hd

theorem extends_peelWrapper (words : List String) (r : ShellReading) :
    Extends r (peelWrapper deeper words r) := by
  cases deeper with
  | none => exact .refl r
  | some below =>
    have hb := hd below rfl
    cases words with
    | nil => exact .refl r
    | cons program args =>
      unfold peelWrapper
      dsimp only
      split
      · exact .refl r
      split
      · split
        · exact hb.source _ r
        · exact .refl r
      split
      · split
        · exact hb.words _ r
        · exact .refl r
      split
      · split
        · exact hb.source _ r
        · exact .refl r
      · exact .refl r

/-- Looking into the words of a command forgets nothing. -/
theorem extends_revealWords (words : List String) (r : ShellReading) :
    Extends r (revealWords deeper words r) := by
  unfold revealWords
  split
  · exact .refl r
  cases words with
  | nil => exact .refl r
  | cons program args =>
    dsimp only
    split
    · exact .refl r
    · exact (extends_addCommand r _).trans (extends_peelWrapper hd _ _)

theorem extends_revealPipedPayload (x y : Stmt) (r : ShellReading) :
    Extends r (revealPipedPayload deeper x y r) := by
  cases deeper with
  | none => exact .refl r
  | some below =>
    unfold revealPipedPayload
    cases stmtCallWords x with
    | none => exact .refl r
    | some producer =>
      dsimp only
      split
      · exact extends_foldl (fun r src => (hd below rfl).source src r) _ r
      · exact .refl r

theorem extends_collectCall (known : List (String × String)) (assigns : List Assign)
    (args : List Word) (r : ShellReading) :
    Extends r (collectCall deeper known assigns args r) := by
  have hadd : Extends r (if args.isEmpty then r else r.addCommand (stepFromCall assigns args)) := by
    split
    · exact .refl r
    · exact extends_addCommand r _
  have hpeel := hadd.trans (extends_peelWrapper hd (lenientWords args) _)
  unfold collectCall
  dsimp only
  split
  · exact hpeel.trans (extends_revealWords hd _ _)
  · exact hpeel

theorem extends_collectNode (known : List (String × String)) (r : ShellReading) (n : Node) :
    Extends r (collectNode deeper known r n) := by
  unfold collectNode
  split
  · rename_i s
    have hredir : Extends r { r with redirects := r.redirects ++ s.redirs.map redirectView } :=
      ⟨List.prefix_refl _, rfl, rfl⟩
    dsimp only
    split
    · exact hredir.trans (extends_collectCall hd _ _ _ _)
    · split
      · exact hredir.trans (extends_revealPipedPayload hd _ _ _)
      · exact hredir
    · exact hredir
  iterate 3 exact ⟨List.prefix_refl _, rfl, rfl⟩
  exact .refl r

theorem extends_collectShellNodes (f : File) (r : ShellReading) :
    Extends r (collectShellNodes deeper f r) :=
  extends_foldl (extends_collectNode hd _) _ r

theorem extends_revealSource (parser : Parser) (src : String) (r : ShellReading) :
    Extends r (revealSource parser deeper src r) := by
  unfold revealSource
  dsimp only
  split
  · exact .refl r
  split
  · exact .refl r
  split
  · exact extends_collectShellNodes hd _ r
  · exact .refl r

end

/-- Deeper readings only add. -/
theorem adds_deeperAt (parser : Parser) (n : Nat) : Adds (deeperAt parser n) := by
  induction n with
  | zero => exact fun d h => by simp [deeperAt] at h
  | succ n ih =>
    intro d h
    cases h
    exact ⟨extends_revealSource ih parser, extends_revealWords ih⟩

/-! ## 2. Handing text on -/

/-- A word the wrappers take for an option. -/
def IsOption (w : String) : Prop := hasPrefix w "-" = true ∧ w ≠ "-" ∧ w ≠ "--"

/-- A program run with these words runs `text` as a shell line. -/
inductive HandsText : List String → String → Prop
  /-- `sh -x -lc 'text'`: options without a `c`, then an option word with one -/
  | dashC {program flag text : String} {opts rest : List String}
      (shell : nestedShellNames.contains (base program) = true)
      (options : ∀ o ∈ opts, IsOption o ∧ 'c' ∉ o.toList)
      (isFlag : IsOption flag ∧ 'c' ∈ flag.toList) (known : text ≠ "") :
      HandsText (program :: (opts ++ flag :: text :: rest)) text
  /-- `eval words` -/
  | eval {program : String} {args : List String} (isEval : base program = "eval")
      (some_ : args ≠ []) (known : ∀ w ∈ args, w ≠ "") :
      HandsText (program :: args) (join " " args)

/-- The options of `xargs`: those that take a value come with it. -/
inductive XargsOptions : List String → Prop
  | nil : XargsOptions []
  | flag {o : String} {rest : List String} (isOption : IsOption o)
      (noValue : o ∉ xargsValueOptions) (more : XargsOptions rest) : XargsOptions (o :: rest)
  | value {o v : String} {rest : List String} (isValue : o ∈ xargsValueOptions)
      (more : XargsOptions rest) : XargsOptions (o :: v :: rest)

/-- A program run with these words runs another command. -/
inductive HandsCommand : List String → List String → Prop
  | xargs {program cmd : String} {opts args : List String}
      (isXargs : base program = "xargs") (options : XargsOptions opts)
      (named : cmd ≠ "") (noOption : hasPrefix cmd "-" = false ∨ cmd = "-") :
      HandsCommand (program :: (opts ++ cmd :: args)) (cmd :: args)
  | xargsDashes {program cmd : String} {opts args : List String}
      (isXargs : base program = "xargs") (options : XargsOptions opts) :
      HandsCommand (program :: (opts ++ "--" :: cmd :: args)) (cmd :: args)

/-- A program run with these words prints `text`, before escapes are decoded. -/
inductive Prints : List String → String → Prop
  | echo {program w : String} {flags args : List String}
      (isEcho : base program = "echo") (areFlags : ∀ f ∈ flags, isEchoFlag f = true)
      (noFlag : isEchoFlag w = false) (known : ∀ v ∈ w :: args, v ≠ "") :
      Prints (program :: (flags ++ w :: args)) (join " " (w :: args))
  | printf {program : String} {args : List String} (isPrintf : base program = "printf")
      (some_ : args ≠ []) (known : ∀ w ∈ args, w ≠ "") :
      Prints (program :: args) (join " " args)

/-- The tree of a payload: its text, trimmed, is not empty, not over the limit, and parses. -/
def Reads (parser : Parser) (src : String) (f : File) : Prop :=
  trimSpace src ≠ "" ∧ (trimSpace src).utf8ByteSize ≤ maxLineBytes ∧
    ∃ bashOnly, parseFile parser (trimSpace src) = some (f, bashOnly)

/-- What may run a command: a tree, the words of a command found in a payload, or words that
may be a wrapper's. -/
inductive Carrier
  | file (f : File)
  | command (words : List String)
  | wrapper (words : List String)

/-- `Runs parser n k c`: the command `c` is run by `k`, `n` payloads further down. -/
inductive Runs (parser : Parser) : Nat → Carrier → Step → Prop
  | call {f : File} {s : Stmt} {assigns : List Assign} {args : List Word}
      (has : f.Has (.stmt s)) (isCall : s.cmd = some (.callExpr assigns args))
      (some_ : args ≠ []) : Runs parser 0 (.file f) (stepFromCall assigns args)
  | assigned {f : File} {s : Stmt} {assigns : List Assign} {args : List Word}
      {words : List String} {n : Nat} {c : Step}
      (has : f.Has (.stmt s)) (isCall : s.cmd = some (.callExpr assigns args))
      (resolved : resolveAssignedWords args (literalAssignments f) = some words)
      (runs : Runs parser n (.command words) c) : Runs parser n (.file f) c
  | handed {f : File} {s : Stmt} {assigns : List Assign} {args : List Word} {n : Nat} {c : Step}
      (has : f.Has (.stmt s)) (isCall : s.cmd = some (.callExpr assigns args))
      (runs : Runs parser n (.wrapper (lenientWords args)) c) : Runs parser n (.file f) c
  | piped {f f' : File} {s x y : Stmt} {producer : List String} {raw text : String} {n : Nat}
      {c : Step} (has : f.Has (.stmt s)) (isPipe : s.cmd = some (.binaryCmd .pipe x y))
      (isCall : stmtCallWords x = some producer) (prints : Prints producer raw)
      (decoded : text = raw ∨ text = decodeEscapes raw)
      (evaluates : consumerEvaluatesStdin y = true) (reads : Reads parser text f')
      (runs : Runs parser n (.file f') c) : Runs parser (n + 1) (.file f) c
  | self {program : String} {args : List String} (named : program ≠ "") :
      Runs parser 0 (.command (program :: args)) (wordsFromValues (program :: args))
  | nested {program : String} {args : List String} {n : Nat} {c : Step} (named : program ≠ "")
      (runs : Runs parser n (.wrapper (program :: args)) c) :
      Runs parser n (.command (program :: args)) c
  | text {words : List String} {src : String} {f : File} {n : Nat} {c : Step}
      (hands : HandsText words src) (reads : Reads parser src f)
      (runs : Runs parser n (.file f) c) : Runs parser (n + 1) (.wrapper words) c
  | words {words cmd : List String} {n : Nat} {c : Step} (hands : HandsCommand words cmd)
      (runs : Runs parser n (.command cmd) c) : Runs parser (n + 1) (.wrapper words) c

/-! ## 3. The scans find what is handed on -/

variable {w text src : String} {ws rest opts words cmd producer : List String}
  {P : ShellReading → Prop} {f : File} {assigns : List Assign} {args : List Word} {s : Stmt}
  {parser : Parser} {c : Step}

theorem IsOption.ne_empty (h : IsOption w) : w ≠ "" := by
  rintro rfl
  exact absurd h.1 (by decide)

/-- An option starts with a dash, so a `c` in it is after the dash. -/
theorem IsOption.contains_drop (h : IsOption w) :
    (w.toList.drop 1).contains 'c' = true ↔ 'c' ∈ w.toList := by
  obtain ⟨l, hl⟩ : ∃ l, w.toList = '-' :: l := by
    obtain ⟨t, ht⟩ := List.isPrefixOf_iff_prefix.mp h.1
    exact ⟨t, ht.symm⟩
  rw [hl]
  simp

theorem dashCScan_skip (h : IsOption w) (hc : 'c' ∉ w.toList) :
    dashCScan (w :: ws) = dashCScan ws := by
  rw [dashCScan.eq_def]
  simp only [h.ne_empty, h.2.1, h.2.2, h.1, Bool.true_eq_false, or_self, if_false, h.contains_drop,
    hc]

theorem dashCScan_flag (h : IsOption w) (hc : 'c' ∈ w.toList) (known : text ≠ "") :
    dashCScan (w :: text :: rest) = some text := by
  rw [dashCScan.eq_def]
  simp only [h.ne_empty, h.2.1, h.2.2, h.1, Bool.true_eq_false, or_self, if_false, h.contains_drop,
    hc, if_true, known]

/-- The text behind `-c` is found behind any options. -/
theorem dashCScan_handed {flag : String} (options : ∀ o ∈ opts, IsOption o ∧ 'c' ∉ o.toList)
    (isFlag : IsOption flag ∧ 'c' ∈ flag.toList) (known : text ≠ "") :
    dashCScan (opts ++ flag :: text :: rest) = some text := by
  induction opts with
  | nil => exact dashCScan_flag isFlag.1 isFlag.2 known
  | cons o opts ih =>
    obtain ⟨ho, hc⟩ := options o (by simp)
    rw [List.cons_append, dashCScan_skip ho hc]
    exact ih fun o' h => options o' (by simp [h])

theorem joinKnown_eq {args : List String} (some_ : args ≠ []) (known : ∀ w ∈ args, w ≠ "") :
    joinKnown args = some (join " " args) := by
  have hc : ¬ (args = [] ∨ args.contains "" = true) := by
    rintro (h | h)
    · exact some_ h
    · exact known "" (by simpa using h) rfl
  simp only [joinKnown, hc, if_false]

variable {o : String}

theorem isOption_of_mem_xargsValueOptions (h : o ∈ xargsValueOptions) : IsOption o := by
  have hall : ∀ w ∈ xargsValueOptions,
      hasPrefix w "-" = true ∧ w ≠ "-" ∧ w ≠ "--" := by decide
  exact hall o h

theorem xargsScan_flag (h : IsOption o) (hv : o ∉ xargsValueOptions) :
    xargsScan (o :: rest) = xargsScan rest := by
  have hc : xargsValueOptions.contains o = false := by simpa using hv
  rw [xargsScan.eq_def]
  simp only [h.ne_empty, h.2.1, h.2.2, h.1, hc, Bool.true_eq_false, or_self, if_false,
    Bool.false_eq_true]

theorem xargsScan_value {v : String} (h : o ∈ xargsValueOptions) :
    xargsScan (o :: v :: rest) = xargsScan rest := by
  have ho := isOption_of_mem_xargsValueOptions h
  have hc : xargsValueOptions.contains o = true := by simpa using h
  rw [xargsScan.eq_def]
  simp only [ho.ne_empty, ho.2.1, ho.2.2, ho.1, hc, Bool.true_eq_false, or_self, if_false, if_true]

theorem xargsScan_options (h : XargsOptions opts) : xargsScan (opts ++ rest) = xargsScan rest := by
  induction h with
  | nil => rfl
  | flag isOption noValue _ ih => exact (xargsScan_flag isOption noValue).trans ih
  | value isValue _ ih => exact (xargsScan_value isValue).trans ih

/-- The command behind the options of `xargs` is found. -/
theorem xargsScan_handed (h : HandsCommand words cmd) : xargsCommandWords words = some cmd := by
  cases h with
  | xargs isXargs options named noOption =>
    unfold xargsCommandWords
    rw [List.drop_one, List.tail_cons, xargsScan_options options, xargsScan.eq_def]
    simp only [named, noOption, if_false, if_true]
  | xargsDashes isXargs options =>
    unfold xargsCommandWords
    rw [List.drop_one, List.tail_cons, xargsScan_options options, xargsScan.eq_def]
    have hp : hasPrefix "--" "-" = true := by decide
    have h1 : ¬ "--" = "" := by decide
    have h2 : ¬ "--" = "-" := by decide
    simp only [hp, h1, h2, Bool.true_eq_false, or_self, if_false, if_true, reduceCtorEq]

variable {below : Deeper}

/-- **A wrapper that hands text on has the text read.** -/
theorem peelWrapper_text (h : HandsText words src) (r : ShellReading) :
    peelWrapper (some below) words r = below.source src r := by
  cases h with
  | dashC shell options isFlag known =>
    rename_i program flag opts rest
    have hne : program ≠ "" := by
      rintro rfl
      exact absurd shell (by decide)
    have hscan : dashCPayload (program :: (opts ++ flag :: src :: rest)) = some src := by
      unfold dashCPayload
      rw [List.drop_one, List.tail_cons]
      exact dashCScan_handed options isFlag known
    simp only [peelWrapper, hne, shell, hscan, if_false, if_true]
  | eval isEval some_ known =>
    rename_i program args
    have hne : program ≠ "" := by
      rintro rfl
      exact absurd isEval (by decide)
    have hshell : nestedShellNames.contains "eval" = false := by decide
    have hx : ¬ "eval" = "xargs" := by decide
    simp only [peelWrapper, hne, isEval, hshell, hx, joinKnown_eq some_ known, if_false, if_true,
      Bool.false_eq_true]

theorem base_of_handsCommand {program : String} {args : List String}
    (h : HandsCommand (program :: args) cmd) : base program = "xargs" := by
  cases h <;> assumption

/-- **A wrapper that hands a command on has the command read.** -/
theorem peelWrapper_words (h : HandsCommand words cmd) (r : ShellReading) :
    peelWrapper (some below) words r = below.words cmd r := by
  have hscan := xargsScan_handed h
  cases words with
  | nil => cases h
  | cons program args =>
    have hbase := base_of_handsCommand h
    have hne : program ≠ "" := by
      rintro rfl
      exact absurd hbase (by decide)
    have hshell : nestedShellNames.contains "xargs" = false := by decide
    simp only [peelWrapper, hne, hbase, hshell, hscan, if_false, if_true, Bool.false_eq_true]

/-- A payload that is printed is among the payloads, as written and decoded. -/
theorem mem_printedPayloads {raw : String} (h : Prints producer raw)
    (hd : text = raw ∨ text = decodeEscapes raw) : text ∈ printedPayloads producer := by
  have hmem : text ∈ (if decodeEscapes raw = raw then [raw] else [raw, decodeEscapes raw]) := by
    by_cases he : decodeEscapes raw = raw
    · rcases hd with rfl | rfl <;> simp [he]
    · rcases hd with rfl | rfl <;> simp [he]
  cases h with
  | echo isEcho areFlags noFlag known =>
    rename_i program w flags args
    have hdrop : (flags ++ w :: args).dropWhile isEchoFlag = w :: args := by
      rw [List.dropWhile_append_of_pos areFlags, List.dropWhile_cons_of_neg (by simp [noFlag])]
    have hne : ¬ ("echo" ≠ "echo" ∧ "echo" ≠ "printf") := by decide
    simp only [printedPayloads, isEcho, hne, hdrop, joinKnown_eq (List.cons_ne_nil w args) known,
      if_false, if_true]
    exact hmem
  | printf isPrintf some_ known =>
    have hne : ¬ ("printf" ≠ "echo" ∧ "printf" ≠ "printf") := by decide
    have hecho : ¬ "printf" = "echo" := by decide
    simp only [printedPayloads, isPrintf, hne, hecho, joinKnown_eq some_ known, if_false]
    exact hmem

/-! ## 4. What is sure to be collected -/

/-- A property that only more commands can make true. -/
def Upward (P : ShellReading → Prop) : Prop := ∀ r r', Extends r r' → P r → P r'

/-- A fold that only adds reaches what one of its steps reaches. -/
theorem foldl_reaches {α : Type} {step : ShellReading → α → ShellReading}
    (adds : ∀ r a, Extends r (step r a)) (up : Upward P) {l : List α} {a : α} (ha : a ∈ l)
    (h : ∀ r, P (step r a)) (r : ShellReading) : P (l.foldl step r) := by
  obtain ⟨l₁, l₂, rfl⟩ := List.append_of_mem ha
  rw [List.foldl_append, List.foldl_cons]
  exact up _ _ (extends_foldl adds l₂ _) (h _)

theorem upward_mem (c : Step) : Upward fun r => c ∈ r.commands :=
  fun _ _ h hc => h.commands.subset hc

/-- `c` has been collected, or the collection is full. -/
def Shown (c : Step) (r : ShellReading) : Prop :=
  c ∈ r.commands ∨ maxRevealedCommands ≤ r.commands.length

theorem upward_shown (c : Step) : Upward (Shown c) := by
  rintro r r' h (hc | hfull)
  · exact .inl (h.commands.subset hc)
  · exact .inr (hfull.trans h.commands.length_le)

/-- A node of the tree is visited, whatever was collected before it. -/
theorem collectShellNodes_reaches (hd : Adds deeper) {n : Node} (has : f.Has n) (up : Upward P)
    (h : ∀ r, P (collectNode deeper (literalAssignments f) r n)) (r : ShellReading) :
    P (collectShellNodes deeper f r) :=
  foldl_reaches (extends_collectNode hd _) up (File.mem_walk_iff.mpr has) h r

/-- **Every simple command of the tree is collected.** -/
theorem mem_commands_of_has (hd : Adds deeper) (has : f.Has (.stmt s))
    (isCall : s.cmd = some (.callExpr assigns args)) (some_ : args ≠ []) (r : ShellReading) :
    stepFromCall assigns args ∈ (collectShellNodes deeper f r).commands := by
  refine collectShellNodes_reaches hd has (upward_mem _) (fun r => ?_) r
  have hemp : args.isEmpty = false := by simpa using some_
  simp only [collectNode, isCall, collectCall, hemp, Bool.false_eq_true, if_false]
  have hmem (r : ShellReading) : stepFromCall assigns args ∈ (peelWrapper deeper (lenientWords args)
      (r.addCommand (stepFromCall assigns args))).commands :=
    (extends_peelWrapper hd _ _).commands.subset (by simp [ShellReading.addCommand])
  split
  · exact (extends_revealWords hd _ _).commands.subset (hmem _)
  · exact hmem _

/-- How a carrier is read with `levels` further levels to go. -/
def readCarrier (parser : Parser) (levels : Nat) : Carrier → ShellReading → ShellReading
  | .file f, r => collectShellNodes (deeperAt parser levels) f r
  | .command words, r => revealWords (deeperAt parser levels) words r
  | .wrapper words, r => peelWrapper (deeperAt parser levels) words r

variable {levels : Nat}

/-- Text that reads is collected from, unless the collection is full. -/
theorem shown_revealSource (reads : Reads parser src f)
    (h : ∀ r, Shown c (collectShellNodes (deeperAt parser levels) f r)) (r : ShellReading) :
    Shown c (revealSource parser (deeperAt parser levels) src r) := by
  obtain ⟨hne, hlen, bashOnly, hparse⟩ := reads
  unfold revealSource
  dsimp only
  split
  · rename_i hfull
    exact .inr hfull
  have hguard : ¬ (trimSpace src = "" ∨
      maxLineBytes < (trimSpace src).utf8ByteSize) := by
    rintro (h | h)
    · exact hne h
    · exact absurd h (Nat.not_lt.mpr hlen)
  rw [if_neg hguard, hparse]
  exact h r

/-- A call's words are read as a wrapper's. -/
theorem shown_of_wrapper (hd : Adds deeper) (has : f.Has (.stmt s))
    (isCall : s.cmd = some (.callExpr assigns args))
    (h : ∀ r, Shown c (peelWrapper deeper (lenientWords args) r)) (r : ShellReading) :
    Shown c (collectShellNodes deeper f r) := by
  refine collectShellNodes_reaches hd has (upward_shown c) (fun r => ?_) r
  simp only [collectNode, isCall, collectCall]
  split
  · exact upward_shown c _ _ (extends_revealWords hd _ _) (h _)
  · exact h _

/-- A call whose words resolve through the line's assignments is read as it resolves. -/
theorem shown_of_assigned (hd : Adds deeper) (has : f.Has (.stmt s))
    (isCall : s.cmd = some (.callExpr assigns args))
    (resolved : resolveAssignedWords args (literalAssignments f) = some words)
    (h : ∀ r, Shown c (revealWords deeper words r)) (r : ShellReading) :
    Shown c (collectShellNodes deeper f r) := by
  refine collectShellNodes_reaches hd has (upward_shown c) (fun r => ?_) r
  simp only [collectNode, isCall, collectCall, resolved]
  exact h _

/-- A printed payload is read when the other end of the pipe runs it. -/
theorem shown_of_piped {f' : File} {x y : Stmt} (has : f.Has (.stmt s))
    (isPipe : s.cmd = some (.binaryCmd .pipe x y)) (isCall : stmtCallWords x = some producer)
    (printed : text ∈ printedPayloads producer) (evaluates : consumerEvaluatesStdin y = true)
    (reads : Reads parser text f')
    (h : ∀ r, Shown c (collectShellNodes (deeperAt parser levels) f' r)) (r : ShellReading) :
    Shown c (collectShellNodes (deeperAt parser (levels + 1)) f r) := by
  refine collectShellNodes_reaches (adds_deeperAt parser (levels + 1)) has (upward_shown c)
    (fun r => ?_) r
  simp only [collectNode, isPipe, if_true, revealPipedPayload, deeperAt, isCall, evaluates]
  exact foldl_reaches (fun r src => extends_revealSource (adds_deeperAt parser levels) parser src r)
    (upward_shown c) printed (shown_revealSource reads h) _

variable {n : Nat}

/-- **What a line runs is collected, down to the last level, unless the collection is full.**
By induction on how the command is reached: each payload takes one level. -/
theorem shown_of_runs {k : Carrier} (h : Runs parser n k c) :
    ∀ levels, n ≤ levels → ∀ r, Shown c (readCarrier parser levels k r) := by
  induction h with
  | call has isCall some_ =>
    exact fun levels _ r => .inl (mem_commands_of_has (adds_deeperAt parser levels) has isCall some_ r)
  | assigned has isCall resolved _ ih =>
    intro levels hle
    exact shown_of_assigned (adds_deeperAt parser levels) has isCall resolved (ih levels hle)
  | handed has isCall _ ih =>
    intro levels hle
    exact shown_of_wrapper (adds_deeperAt parser levels) has isCall (ih levels hle)
  | piped has isPipe isCall prints decoded evaluates reads _ ih =>
    intro levels hle
    obtain ⟨m, rfl⟩ := Nat.exists_eq_add_of_le' (Nat.le_of_add_left_le hle)
    exact shown_of_piped has isPipe isCall (mem_printedPayloads prints decoded) evaluates reads
      (ih m (Nat.le_of_succ_le_succ hle))
  | self named =>
    intro levels _ r
    simp only [readCarrier, revealWords, named, if_false]
    split
    · rename_i hfull
      exact .inr hfull
    · exact .inl ((extends_peelWrapper (adds_deeperAt parser levels) _ _).commands.subset
        (by simp [ShellReading.addCommand]))
  | nested named _ ih =>
    intro levels hle r
    simp only [readCarrier, revealWords, named, if_false]
    split
    · rename_i hfull
      exact .inr hfull
    · exact ih levels hle _
  | text hands reads _ ih =>
    intro levels hle r
    obtain ⟨m, rfl⟩ := Nat.exists_eq_add_of_le' (Nat.le_of_add_left_le hle)
    simp only [readCarrier, deeperAt]
    rw [peelWrapper_text hands]
    exact shown_revealSource reads (ih m (Nat.le_of_succ_le_succ hle)) r
  | words hands _ ih =>
    intro levels hle r
    obtain ⟨m, rfl⟩ := Nat.exists_eq_add_of_le' (Nat.le_of_add_left_le hle)
    simp only [readCarrier, deeperAt]
    rw [peelWrapper_words hands]
    exact ih m (Nat.le_of_succ_le_succ hle) r

/-! ## 5. The blacklist -/

/-- The call carries a line that can be read, and `f` is its tree. -/
def ReadsAs (host : Host) (kind : Kind) (args : Args) (f : File) (bashOnly : Bool) : Prop :=
  structural kind host.goos = true ∧ ∃ src, lineSource args = some src ∧
    src.utf8ByteSize ≤ maxLineBytes ∧ parseFile host.parser src = some (f, bashOnly)

variable {host : Host} {kind : Kind} {bashOnly : Bool}

/-- The reading of a line is the collection over its tree. -/
theorem analyzeShellArgs_eq {args : Args} (h : ReadsAs host kind args f bashOnly) :
    analyzeShellArgs host.parser host.goos kind args =
      { collectShellNodes (deeperAt host.parser maxRevealDepth) f
          { ShellReading.zero with analyzed := true, parsed := true } with
        upgradable := !bashOnly && fileClearedForUpgrade f } := by
  obtain ⟨hs, src, hsrc, hlen, hf⟩ := h
  obtain ⟨line, hline, htree⟩ := lineFromArgs_tree hs hsrc hlen hf
  simp only [Line.tree, Prod.mk.injEq] at htree
  obtain ⟨hfile, hread, hparsed, hbash⟩ := htree
  simp only [analyzeShellArgs, hline, hread, hparsed, hfile, hbash, if_true]

/-- A line that reads as a file is parsed. -/
theorem parsed_analyzeShellArgs {args : Args} (h : ReadsAs host kind args f bashOnly) :
    (analyzeShellArgs host.parser host.goos kind args).parsed = true := by
  rw [analyzeShellArgs_eq h]
  exact (extends_collectShellNodes (adds_deeperAt _ _) f _).parsed

variable {scope : EvalScope}

/-- A command of the reading whose basename is listed is found. -/
theorem commandInListMatch_of_mem {list : String} (parsed : scope.shell.parsed = true)
    (hc : c ∈ scope.shell.commands) (listed : c.base ∈ listNames list) :
    (commandInListMatch scope list).isSome = true := by
  have hfound : (structuralCommandInList scope.shell list).isSome = true := by
    unfold structuralCommandInList
    rw [if_pos parsed, List.find?_isSome]
    have hne : c.base ≠ "" := by simpa using (List.mem_filter.mp listed).2
    exact ⟨c, hc, by simp [hne, listed]⟩
  unfold commandInListMatch
  split
  · rfl
  · rwa [Option.isSome_map]

/-- What is found makes the list condition match. -/
theorem conditionMatches_of_found {cond : Condition} {v : ArgValue}
    (op : cond.op = .commandBlacklist) (key : scope.args.get cond.key = some v)
    (values : conditionValues v ≠ []) (found : (commandInListMatch scope cond.value).isSome = true)
    (action : Action) (st : EvalState) : (conditionMatches scope cond action st).1 = true := by
  obtain ⟨name, hname⟩ := Option.isSome_iff_exists.mp found
  obtain ⟨s, rest, hvals⟩ := List.exists_cons_of_ne_nil values
  simp only [conditionMatches, key, hvals, anyValueMatches, valueMatches, op, hname, if_true]

/-- **The blacklist sees every simple command of the line**, however it is nested; and every
command of a text handed on to another shell, at most `maxRevealDepth` texts deep, as long as
the whole line comes to fewer than `maxRevealedCommands` commands. -/
theorem blacklisted_command_matches {scope : EvalScope} {f : File} {bashOnly : Bool} {c : Step}
    {cond : Condition} {v : ArgValue}
    (line : ReadsAs scope.host scope.shellKind scope.args f bashOnly)
    (runs : (∃ s assigns args, f.Has (.stmt s) ∧ s.cmd = some (.callExpr assigns args) ∧
        args ≠ [] ∧ c = stepFromCall assigns args) ∨
      ((∃ n ≤ maxRevealDepth, Runs scope.host.parser n (.file f) c) ∧
        scope.shell.commands.length < maxRevealedCommands))
    (op : cond.op = .commandBlacklist) (key : scope.args.get cond.key = some v)
    (values : conditionValues v ≠ []) (listed : c.base ∈ listNames cond.value)
    (action : Action) (st : EvalState) : (conditionMatches scope cond action st).1 = true := by
  have heq : scope.shell = _ := analyzeShellArgs_eq line
  refine conditionMatches_of_found op key values
    (commandInListMatch_of_mem (parsed_analyzeShellArgs line) ?_ listed) action st
  rcases runs with ⟨s, assigns, args, has, isCall, some_, rfl⟩ | ⟨⟨n, hn, hr⟩, hlt⟩
  · rw [heq]
    exact mem_commands_of_has (adds_deeperAt _ _) has isCall some_ _
  have hshown := shown_of_runs hr maxRevealDepth hn
    { ShellReading.zero with analyzed := true, parsed := true }
  rcases hshown with hmem | hfull
  · rw [heq]
    exact hmem
  · rw [heq] at hlt
    exact absurd hfull (Nat.not_le.mpr hlt)

/-! ## 6. Where the bound bites -/

/-- A machine with nothing installed, on lines of plain words. -/
def plainHost : Host where
  goos := "linux"
  parser := plainParser
  lookPath _ := none
  evalSymlinks _ := none
  binarySHA256 _ := .error "no such file"
  quote s := "\"" ++ s ++ "\""
  pathMatch _ _ := false
  urlHostname _ := none
  isIP _ := false

/-- The call whose command is `line`. -/
def lineCall (line : String) : Args := ⟨[("command", .str line)], List.pairwise_singleton _ _⟩

/-- A line of plain words and line breaks reads as its commands. -/
theorem readsAs_plain {cmds : List (List String)} (hsrc : lineSource (lineCall src) = some src)
    (hlen : src.utf8ByteSize ≤ maxLineBytes) (hplain : src.toList.all plainChar = true)
    (hcmds : ((split src '\n').map fields).filter (· ≠ []) = cmds) :
    ReadsAs plainHost .posix (lineCall src) ⟨cmds.map plainCommand⟩ false :=
  ⟨rfl, src, hsrc, hlen, parseFile_plain hplain hcmds⟩

/-- The words `eval eval .. rm`, with `n` times `eval`. -/
def evalTower (n : Nat) : List String := List.replicate n "eval" ++ ["rm"]

/-- The line `eval eval .. rm`. -/
def towerFile (n : Nat) : File := ⟨[evalTower n].map plainCommand⟩

def rmStep : Step := stepFromCall [] [.mk [.lit "rm"]]

/-- Words that make up a line of plain words. -/
abbrev PlainLine (ws : List String) : Prop :=
  trimSpace (join " " ws) = join " " ws ∧
    join " " ws ≠ "" ∧ (join " " ws).utf8ByteSize ≤ maxLineBytes ∧
    (join " " ws).toList.all plainChar = true ∧
    ((split (join " " ws) '\n').map fields).filter (· ≠ []) = [ws] ∧
    lenientWords (ws.map fun w => Word.mk [.lit w]) = ws ∧ ∀ w ∈ ws, w ≠ ""

theorem reads_plainLine (h : PlainLine ws) :
    Reads plainParser (join " " ws) ⟨[ws].map plainCommand⟩ := by
  obtain ⟨htrim, hne, hlen, hplain, hcmds, -, -⟩ := h
  refine ⟨?_, ?_, false, ?_⟩
  · rwa [htrim]
  · rwa [htrim]
  · rw [htrim]
    exact parseFile_plain hplain hcmds

/-- `eval` in front of a line of plain words is one payload more. -/
theorem runs_eval (hne : ws ≠ []) (h : PlainLine ws) (h' : PlainLine ("eval" :: ws))
    (runs : Runs plainParser n (.file ⟨[ws].map plainCommand⟩) c) :
    Runs plainParser (n + 1) (.file ⟨["eval" :: ws].map plainCommand⟩) c := by
  refine .handed ⟨_, List.mem_singleton_self _, .refl⟩ rfl ?_
  rw [h'.2.2.2.2.2.1]
  exact .text (.eval (by decide) hne h.2.2.2.2.2.2) (reads_plainLine h) runs

/-- A tower of shells runs the command at its top. -/
theorem runs_towerFile (hn : n < 6) : Runs plainParser n (.file (towerFile n)) rmStep := by
  have hplain : ∀ k < 6, PlainLine (evalTower k) := by decide +kernel
  induction n with
  | zero => exact .call ⟨_, List.mem_singleton_self _, .refl⟩ rfl (by simp)
  | succ n ih =>
    have hlt := Nat.lt_of_succ_lt hn
    have hne : evalTower n ≠ [] := by simp [evalTower]
    have hsucc : PlainLine ("eval" :: evalTower n) := hplain (n + 1) hn
    exact runs_eval hne (hplain n hlt) hsucc (ih hlt)

/-- **A payload one level too deep.**  `eval eval eval eval eval rm` runs `rm`, and a
blacklist with `rm` on it does not match. -/
theorem deep_payload_not_matched :
    ∃ (scope : EvalScope) (f : File) (c : Step),
      ReadsAs scope.host scope.shellKind scope.args f false ∧
      Runs scope.host.parser (maxRevealDepth + 1) (.file f) c ∧ c.base ∈ listNames "rm" ∧
      (conditionMatches scope ⟨"command", .commandBlacklist, "rm"⟩ .deny
        ⟨"", MatchNote.zero⟩).1 = false := by
  refine ⟨⟨plainHost, .posix, lineCall "eval eval eval eval eval rm", none⟩, towerFile 5, rmStep,
    ?_, runs_towerFile (by decide), by decide +kernel, by decide +kernel⟩
  exact readsAs_plain (by decide +kernel) (by decide +kernel) (by decide +kernel)
    (by decide +kernel)

/-- The theorem at `eval rm`, a payload of the first level. -/
theorem blacklisted_command_matches_eval :
    (conditionMatches ⟨plainHost, .posix, lineCall "eval rm", none⟩
      ⟨"command", .commandBlacklist, "rm"⟩ .deny ⟨"", MatchNote.zero⟩).1 = true := by
  have line : ReadsAs plainHost .posix (lineCall "eval rm") (towerFile 1) false :=
    readsAs_plain (by decide +kernel) (by decide +kernel) (by decide +kernel) (by decide +kernel)
  exact blacklisted_command_matches line
    (.inr ⟨⟨1, by decide, runs_towerFile (by decide)⟩, by decide +kernel⟩) rfl rfl
    (by simp [conditionValues])
    (by decide +kernel) .deny ⟨"", MatchNote.zero⟩

end Contenox.Hitl
