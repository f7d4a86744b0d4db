/-
# Whether the gate judges the call the tool runs

What a call DENOTES is a line for a shell to read, or one program with its words.  The gate's
merge denotes one such invocation and the tool's merge another.  They should be the same, for
a policy that judges one call while the tool runs another judges nothing.

They are the same for PLAIN calls (`same_invocations_of_plain`).  No reader of shell text is
fixed for this: the statement is about every reader to which white space around a line is
nothing, since that is what both sides trim, and one plain word is a program.  The last one
counts only where the tool has no command policy of its own: there a call without words and
without the flag is one program to it, and a line to the gate, so that `git status` is not the
same call.
-/
import Contenox.LocalShell.Args

namespace Contenox.LocalShell

open Lib Shell GoStrings

/-! ## 1. What a call denotes -/

/-- A line for a shell to read, one program with its words, or nothing. -/
inductive Invocation
  | line (src : String)
  | argv (words : List String)
  | nothing
  deriving DecidableEq, Repr

/-- What an invocation comes to for a reader of lines.  A blank line runs nothing. -/
def Invocation.under {ρ : Type} (read : String → ρ) (prog : List String → ρ) :
    Invocation → Option ρ
  | .line src => if trimSpace src = "" then none else some (read src)
  | .argv words => some (prog words)
  | .nothing => none

/-- A command with its words after it, as one text. -/
def joinLine (command : String) (words : List String) : String :=
  if words = [] then command else command ++ " " ++ join " " words

/-- What `planLine` plans to run, before it reads and checks the line; `active` says whether the
tool has a command policy.  Without one the flag alone decides, and the platform's shell is given
the words after the command (`WrapCommand`). -/
def planLine (active : Bool) (command : String) (args : List String) (useShell : Bool) :
    Invocation :=
  if active = false then
    if useShell then .line (joinLine command args) else .argv (command :: args)
  else if useShell ∧ args ≠ [] then .line (trimSpace (command ++ " " ++ join " " args))
  else if args ≠ [] then .argv (command :: args)
  else .line command

/-- The call as the tool runs it. -/
def executed (active : Bool) : Except String ParsedArgs → Invocation
  | .error _ => .nothing
  | .ok p => planLine active p.command p.args p.useShell

/-- The words a shell gives a meaning of its own where a program would stand. -/
def reservedWords : List String :=
  ["if", "then", "else", "elif", "fi", "do", "done", "case", "esac", "while", "until", "for", "in",
   "function", "select", "time", "coproc"]

/-- A text that is one word to every shell, and nothing but a word. -/
def PlainWord (w : String) : Prop :=
  w ≠ "" ∧ w ∉ reservedWords ∧ ∀ c ∈ w.toList, c.isAlphanum ∨ c ∈ ['-', '_', '.', '/']

instance (w : String) : Decidable (PlainWord w) :=
  @instDecidableAnd _ _ _ (@instDecidableAnd _ _ _ (List.decidableBAll _ _))

/-- What the gate is shown for a key: the fixed argument if there is one, else the input's. -/
def shown (input : Input) (tools : ToolsArgs) (k : String) : Option ArgValue :=
  ((tools.entries.lookup k).map ArgValue.str).or ((inputArgs input).get k)

/-- A character both readers take for what it is: no quote, no backslash, and white space only
where it is a blank, a tab or a line break. -/
def PlainArgChar (c : Char) : Prop :=
  c ≠ '\\' ∧ c.toNat ≠ 0x27 ∧ c.toNat ≠ 0x22 ∧
    (isSpace c = true ↔ c = ' ' ∨ c = '\t' ∨ c = '\n')

theorem splitShellFrom_plain {l : List Char} (h : ∀ c ∈ l, PlainArgChar c) (cur : List Char) :
    splitShellFrom ⟨cur, false, false, false⟩ l = fieldsFrom cur l := by
  induction l generalizing cur with
  | nil => rfl
  | cons c l ih =>
    obtain ⟨hb, hs, hd, hsp⟩ := h c List.mem_cons_self
    have hblank : (decide (c = ' ') || decide (c = '\t') || decide (c = '\n')) = isSpace c := by
      rw [Bool.eq_iff_iff, hsp]
      simp [or_assoc]
    have hl := ih fun c hc => h c (List.mem_cons_of_mem _ hc)
    by_cases hcur : cur = [] <;> simp [splitShellFrom, fieldsFrom, hb, hs, hd, hblank, hcur, hl]

/-- **On plain text the two ways of splitting are one.** -/
theorem splitShellArgs_plain {s : String} (h : ∀ c ∈ s.toList, PlainArgChar c) :
    splitShellArgs s = fields s := by
  unfold splitShellArgs fields
  rw [splitShellFrom_plain h]

/-! ## 4. Plain calls -/

/-- A value of `args` both readers split alike. -/
def PlainArgs : ArgValue → Prop
  | .str s => ∀ c ∈ s.toList, PlainArgChar c
  | .strs _ => True
  | .list l => ∀ v ∈ l, ∃ s, v = .str s
  | _ => False

theorem stringItems_strings (env : ExecEnv) (key : String) {l : List ArgValue}
    (h : ∀ v ∈ l, ∃ s, v = .str s) (i : Nat) : stringItems env key i l = .ok (printAll l) := by
  induction l generalizing i with
  | nil => rfl
  | cons v l ih =>
    obtain ⟨s, rfl⟩ := h v List.mem_cons_self
    simp only [stringItems, ih fun v hv => h v (List.mem_cons_of_mem _ hv), Except.map, printAll,
      ArgValue.print]

theorem stringSliceArg_plain (env : ExecEnv) (key : String) {v : ArgValue} (h : PlainArgs v) :
    stringSliceArg env key v = .ok (argTokens (some v)) := by
  cases v with
  | str s => exact congrArg Except.ok (splitShellArgs_plain h)
  | strs l => rfl
  | list l => exact stringItems_strings env key h 0
  | null | bool _ | other _ => cases h

/-- A spelling of the shell flag that both read alike: the gate takes three more, and white space
around them. -/
def PlainFlag (s : String) : Prop := trimSpace s = s ∧ toLower s ∉ ["yes", "y", "on"]

/-- The letters of "true" have no other spelling. -/
theorem equalFold_true (s : String) : equalFold s "true" = true ↔ toLower s = "true" := by
  have hfold : equalFold s "true" = true ↔ s.toList.map fold = ['t', 'r', 'u', 'e'] := by
    rw [equalFold, decide_eq_true_iff]
    exact Iff.of_eq (congrArg _ (by decide +kernel))
  have hlower : toLower s = "true" ↔ s.toList.map lower = ['t', 'r', 'u', 'e'] := by
    rw [toLower, ← String.toList_inj, String.toList_ofList]
    rfl
  have hplain : ∀ d ∈ ['t', 'r', 'u', 'e'], d.toNat < 128 ∧ d ∉ ['i', 'k', 's'] := by simp
  have hsame : ∀ f g : Char → Char, (∀ c, ∀ d ∈ ['t', 'r', 'u', 'e'], f c = d → g c = d) →
      s.toList.map f = ['t', 'r', 'u', 'e'] → s.toList.map g = ['t', 'r', 'u', 'e'] := by
    intro f g hfg h
    rw [← h]
    refine List.map_congr_left fun c hc => ?_
    exact hfg c (f c) (h ▸ List.mem_map_of_mem hc) rfl
  rw [hfold, hlower]
  constructor
  · exact hsame fold lower fun c d hd => (fold_eq_iff (hplain d hd).1 (hplain d hd).2).mp
  · exact hsame lower fold fun c d hd => (fold_eq_iff (hplain d hd).1 (hplain d hd).2).mpr

theorem toLower_eq_one (s : String) : toLower s = "1" ↔ s = "1" := by
  rw [toLower, ← String.toList_inj, String.toList_ofList]
  constructor
  · intro h
    obtain ⟨c, hs, hc⟩ := List.map_eq_singleton_iff.mp h
    rw [← String.toList_inj, hs, eq_of_lower_eq (by decide) hc]
    rfl
  · rintro rfl
    rfl

theorem modeOf_plain {s : String} (h : PlainFlag s) : modeOf (some (.str s)) = flagSet s := by
  obtain ⟨htrim, hnot⟩ := h
  simp only [List.mem_cons, List.not_mem_nil, or_false, not_or] at hnot
  rw [Bool.eq_iff_iff]
  simp [modeOf, flagSet, htrim, equalFold_true, toLower_eq_one, hnot]

/-- The value asks for a shell, as the tool takes it. -/
def AsksShell : ArgValue → Prop
  | .bool b => b = true
  | .str s => flagSet s = true
  | _ => False

/-- The value has a word. -/
def HasWord : ArgValue → Prop
  | .str s => trimSpace s ≠ ""
  | .strs l => l ≠ []
  | .list l => l ≠ []
  | _ => False

/-- A call that says plainly what to run.  What counts of it is what the gate is shown: the chain's
fixed argument where there is one, else the input's. -/
structure PlainCall (active : Bool) (tools : ToolsArgs) (input : Input) (command : String) :
    Prop where
  known : ∀ m, input = .map m → rejectUnknownArgs m = none
  given : shown input tools "command" = some (.str command)
  nonempty : command ≠ ""
  trimmed : trimSpace command = command
  args : ∀ v, shown input tools "args" = some v → PlainArgs v
  shell : ∀ s, shown input tools "shell" = some (.str s) → PlainFlag s
  /-- no fixed arguments without a word stand before the input's -/
  fixedArgs : ∀ s, tools.entries.lookup "args" = some s → trimSpace s = "" →
    (inputArgs input).get "args" = none
  /-- nor a fixed flag that is not set -/
  fixedShell : ∀ s, tools.entries.lookup "shell" = some s → flagSet s = false →
    (inputArgs input).get "shell" = none
  /-- the gate can read the line -/
  short : ∀ src, lineSource (policyEvalArgs input tools) = some src →
    src.utf8ByteSize ≤ maxLineBytes
  /-- without a policy, a command alone is one word -/
  alone : active = false → (∃ v, shown input tools "shell" = some v ∧ AsksShell v) ∨
    (∃ v, shown input tools "args" = some v ∧ HasWord v) ∨ PlainWord command

variable {env : ExecEnv} {active : Bool} {tools : ToolsArgs} {input : Input} {command : String}

theorem PlainCall.mode (h : PlainCall active tools input command) {v : ArgValue}
    (hv : shown input tools "shell" = some v) : modeOf (some v) = true ↔ AsksShell v := by
  cases v with
  | bool b => rfl
  | str s => rw [modeOf_plain (h.shell s hv)]; rfl
  | null | strs _ | list _ | other _ => exact iff_of_false (fun h => by cases h) id

theorem fromTools_args (env : ExecEnv) (tools : ToolsArgs) :
    (fromTools env tools).args = ((tools.entries.lookup "args").map splitShellArgs).getD [] := by
  unfold fromTools ToolsArgs.get
  cases tools.entries.lookup "args" with
  | none => rfl
  | some s =>
    by_cases hs : s = ""
    · subst hs
      rfl
    · simp [hs]

theorem fromTools_useShell (env : ExecEnv) (tools : ToolsArgs) :
    (fromTools env tools).useShell = ((tools.entries.lookup "shell").map flagSet).getD false := by
  unfold fromTools ToolsArgs.get
  cases tools.entries.lookup "shell" with
  | none => rfl
  | some s =>
    by_cases hs : s = ""
    · have hempty : flagSet "" = false := by decide +kernel
      simp [hs, hempty]
    · simp [hs]

/-- The tool takes the command the gate is shown. -/
theorem PlainCall.command_eq (h : PlainCall active tools input command) (env : ExecEnv) :
    (fromTools env tools).command = command ∨ (fromTools env tools).command = "" ∧
      (inputArgs input).get "command" = some (.str command) := by
  have hc := h.given
  unfold shown at hc
  unfold fromTools ToolsArgs.get
  cases hl : tools.entries.lookup "command" with
  | none => exact .inr ⟨rfl, by simpa [hl] using hc⟩
  | some v => exact .inl (by simpa [hl] using hc)

/-- It splits the arguments the gate is shown, and as the gate does. -/
theorem PlainCall.words_eq (h : PlainCall active tools input command) (env : ExecEnv) :
    (match (inputArgs input).get "args" with
      | some a =>
        if (fromTools env tools).args = [] then stringSliceArg env "args" a
        else .ok (fromTools env tools).args
      | none => .ok (fromTools env tools).args) = .ok (argTokens (shown input tools "args")) := by
  rw [fromTools_args]
  cases hl : tools.entries.lookup "args" with
  | none =>
    have hs : shown input tools "args" = (inputArgs input).get "args" := by simp [shown, hl]
    cases hv : (inputArgs input).get "args" with
    | none => rw [hs, hv]; rfl
    | some v => rw [hs, hv]; exact stringSliceArg_plain env "args" (h.args v (hs.trans hv))
  | some s =>
    have hs : shown input tools "args" = some (.str s) := by simp [shown, hl]
    have hsplit : splitShellArgs s = fields s := splitShellArgs_plain (h.args _ hs)
    rw [hs]
    by_cases hnil : fields s = []
    · have hblank : trimSpace s = "" := not_not.mp fun hne => fields_ne_nil hne hnil
      simp [h.fixedArgs s hl hblank, hsplit, argTokens]
    · cases (inputArgs input).get "args" <;> simp [hsplit, hnil, argTokens]

/-- It reads the flag the gate is shown. -/
theorem PlainCall.mode_eq (h : PlainCall active tools input command) (env : ExecEnv) :
    modeOf (shown input tools "shell") = ((fromTools env tools).useShell ||
      match (inputArgs input).get "shell" with
      | some (.bool b) => b
      | some (.str s) => flagSet s
      | _ => false) := by
  rw [fromTools_useShell]
  cases hl : tools.entries.lookup "shell" with
  | some s =>
    have hs : shown input tools "shell" = some (.str s) := by simp [shown, hl]
    rw [hs, modeOf_plain (h.shell s hs)]
    by_cases hset : flagSet s = true
    · simp [hset]
    · simp [h.fixedShell s hl (by simpa using hset)]
  | none =>
    have hs : shown input tools "shell" = (inputArgs input).get "shell" := by simp [shown, hl]
    rw [hs]
    cases hv : (inputArgs input).get "shell" with
    | none => rfl
    | some v =>
      cases v with
      | str s => exact modeOf_plain (h.shell s (hs.trans hv))
      | _ => rfl

/-- The tool's invocation of a plain call. -/
theorem PlainCall.executed (h : PlainCall active tools input command) :
    executed active (parseArgs env tools input) =
      planLine active command (argTokens (shown input tools "args"))
        (modeOf (shown input tools "shell")) := by
  have hcommand := h.command_eq env
  have hwords := h.words_eq env
  have hrequire : ∀ p : ParsedArgs, p.command = command →
      LocalShell.executed active (requireCommand p) =
        planLine active command p.args p.useShell := by
    rintro p rfl
    simp [requireCommand, h.nonempty, LocalShell.executed]
  rw [h.mode_eq env]
  cases input with
  | str v =>
    -- a bare string gives the gate no command, so the fixed one counts
    have hnone : ∀ k, k ≠ "stdin" → (inputArgs (.str v)).get k = none := by
      intro k hk
      by_cases hv : v = "" <;> simp [inputArgs, hv, Args.get_set, hk]
    rw [hnone "command" (by decide)] at hcommand
    rw [hnone "args" (by decide)] at hwords
    rw [hnone "shell" (by decide)]
    have hc := hcommand.resolve_right fun hn => by cases hn.2
    simp only [parseArgs]
    rw [hrequire _ (by simp [withString, hc, h.nonempty]), ← Except.ok.inj hwords]
    simp [withString, hc, h.nonempty]
  | other =>
    have hc := hcommand.resolve_right fun hn => by cases hn.2
    rw [← Except.ok.inj hwords]
    exact (hrequire _ hc).trans (by simp [inputArgs])
  | map m =>
    have hgiven : ∀ words, (withMap env (fromTools env tools) m words).command = command := by
      intro words
      rcases hcommand with hc | ⟨hc, hm⟩
      · simp [withMap, hc, h.nonempty]
      · have hstr : m.getStr "command" = some command := by
          rw [Args.getStr, show m.get "command" = _ from hm]
          rfl
        simp [withMap, hc, hstr]
    have hmap : mapWords env (fromTools env tools) m =
        .ok (argTokens (shown (.map m) tools "args")) := hwords
    simp only [parseArgs, h.known m rfl, hmap]
    exact hrequire _ (hgiven _)

/-! ## 5. When the gate judges the call the tool runs -/

end Contenox.LocalShell
