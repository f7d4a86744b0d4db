/-
# What an allow through a prefix list has verified

With a trusted-binaries block, a prefix list grants an allow only after the programs of the
line were verified.  There are two ways to such an allow.  The STRUCTURAL path verifies every
command it collected from the tree, and that is every program of the line.  The TOKENIZER
path verifies the first word of the call and nothing else.

That would be enough if a call the tokenizer accepts had one program.  It refuses every
separator it knows, but its tokens come from `strings.Fields`, to which a line break is a
space: `git status` and, on the next line, `ls`, is three harmless tokens to it.  The
structural reading is asked for an objection, and has none when both commands are on the
list.

`allow_verified_iff` says for which calls the guarantee holds: those whose programs all are
the first word, whenever some list admits the call by its tokens.
-/
import Contenox.Policy.Withheld

namespace Contenox.Hitl

open Lib Shell GoStrings

variable {tb : TrustedBinaries}

/-! ## 1. The programs of a call, and the allow -/

/-- A simple command of the tree runs this program; `none` is one known at run time only. -/
def RunsProgram (f : File) (name : Option String) : Prop :=
  ∃ s assigns program rest, f.Has (.stmt s) ∧
    s.cmd = some (.callExpr assigns (program :: rest)) ∧ name = wordName program

/-- The call runs this program: as a command of its line, or, when it keeps its arguments
apart, as its command. -/
def CallRuns (host : Host) (kind : Kind) (args : Args) (name : Option String) : Prop :=
  (∃ f bashOnly, ReadsAs host kind args f bashOnly ∧ RunsProgram f name) ∨
    (lineSource args = none ∧ ∃ cmd, args.getStr "command" = some cmd ∧
      trimSpace cmd ≠ "" ∧ name = some cmd)

/-- The policy allows the call, through a rule with a prefix list among its conditions. -/
def AllowedByPrefix (host : Host) (kind : Kind) (p : Policy) (toolsName toolName : String)
    (args : Args) : Prop :=
  (evaluate host kind p toolsName toolName args).action = .allow ∧
    ∃ i r, (evaluate host kind p toolsName toolName args).matchedRule = some i ∧
      p.rules[i]? = some r ∧ ∃ c ∈ r.when, c.op = .commandPrefixAllowlist

/-- What the machine says about programs: the binary-resolution environment. -/
structure Binaries where
  lookPath : String → Option String
  evalSymlinks : String → Option String
  binarySHA256 : String → Except String String

/-- The same machine with other programs on it. -/
def Host.withBinaries (host : Host) (env : Binaries) : Host :=
  { host with
    lookPath := env.lookPath
    evalSymlinks := env.evalSymlinks
    binarySHA256 := env.binarySHA256 }

variable {host : Host} {kind : Kind} {args : Args} {name : Option String}

/-- The command of a call that runs something is not blank, and the tokenizer's program word
is the first word of it. -/
theorem CallRuns.first_word (h : CallRuns host kind args name) :
    ∃ cmd first, args.get "command" = some (.str cmd) ∧ tokenizerProgramWords args = [first] ∧
      first ≠ "" ∧ trimSpace first = first := by
  obtain ⟨cmd, hcmd, hne⟩ : ∃ cmd, args.getStr "command" = some cmd ∧
      trimSpace cmd ≠ "" := by
    rcases h with ⟨f, b, ⟨-, src, hsrc, -, -⟩, -⟩ | ⟨-, cmd, hcmd, hne, -⟩
    · unfold lineSource at hsrc
      dsimp only at hsrc
      split at hsrc
      · cases hsrc
      rename_i hne
      cases hcmd : args.getStr "command" with
      | none => simp [hcmd, trimSpace, trimChars] at hne
      | some cmd => exact ⟨cmd, rfl, by simpa [hcmd] using hne⟩
    · exact ⟨cmd, hcmd, hne⟩
  obtain ⟨first, rest, hfields⟩ := List.exists_cons_of_ne_nil (fields_ne_nil hne)
  have hget : args.get "command" = some (.str cmd) := by
    unfold Args.getStr strOf at hcmd
    split at hcmd
    · rename_i s hs
      rw [hs, Option.some.inj hcmd]
    · cases hcmd
  refine ⟨cmd, first, hget, ?_, ?_⟩
  · simp [tokenizerProgramWords, hcmd, hfields]
  · exact trimSpace_of_mem_fields (by rw [hfields]; exact List.mem_cons_self)

/-! ## 2. From the allow back to the check -/

section
variable {scope : EvalScope} {st : EvalState} {prefixList : String}

/-- The check was passed by every program it was given, and it was given one. -/
theorem verified_of_trusts {names : List String} (hscope : scope.trusted = some tb)
    (henf : tb.enforced = true) (h : (trusts scope names st).1 = true) :
    names ≠ [] ∧ ∀ n ∈ names, Verified scope.host tb n := by
  unfold trusts at h
  simp only [hscope, henf, if_true] at h
  split at h
  · cases h
  rename_i hne
  refine ⟨hne, ?_⟩
  cases hfind : names.findSome? (verifyCommand scope.host tb) with
  | some msg => simp [hfind] at h
  | none => exact fun n hn => List.findSome?_eq_none_iff.mp hfind n hn

/-- What stands behind a prefix condition that passed in an allow rule. -/
theorem prefixList_passed (hscope : scope.trusted = some tb) (henf : tb.enforced = true)
    (h : (commandPrefixAllowMatch scope prefixList .allow st).1 = true) :
    (isCommandPrefixAllowed scope.args prefixList = true ∧
      structuralContradictsPrefix scope.shell prefixList = false ∧
      ∀ n ∈ tokenizerProgramWords scope.args, Verified scope.host tb n) ∨
    (structuralPrefixAllowed scope.shell prefixList = true ∧
      structuralProgramWords scope.shell ≠ [] ∧
      ∀ n ∈ structuralProgramWords scope.shell, Verified scope.host tb n) := by
  unfold commandPrefixAllowMatch gate at h
  simp only [if_true] at h
  split at h
  · rename_i hallowed
    split at h
    · cases h
    · rename_i hcontra
      exact .inl ⟨hallowed, by simpa using hcontra, (verified_of_trusts hscope henf h).2⟩
  · split at h
    · rename_i hstruct
      exact .inr ⟨hstruct, verified_of_trusts hscope henf h⟩
    · cases h

variable {c : Condition}

/-- Every condition of a rule that matched has passed. -/
theorem condition_passed {action : Action} {l : List Condition}
    (h : (allConditionsMatch scope action l st).1 = true) (hc : c ∈ l) :
    ∃ st, (conditionMatches scope c action st).1 = true := by
  induction l generalizing st with
  | nil => cases hc
  | cons d l ih =>
    simp only [allConditionsMatch] at h
    split at h
    · rename_i hd
      rcases List.mem_cons.mp hc with rfl | hc
      · exact ⟨st, hd⟩
      · exact ih h hc
    · cases h

/-- The rule a result names is a rule of the policy that matched, and gives the action. -/
theorem rule_of_evaluateFrom {defaultAction : Option Action} {toolsName toolName : String}
    {rules : List Rule} {i k : Nat} {t : String}
    (h : (evaluateFrom scope defaultAction toolsName toolName i rules t).matchedRule = some k) :
    ∃ r st, i ≤ k ∧ rules[k - i]? = some r ∧
      (evaluateFrom scope defaultAction toolsName toolName i rules t).action = r.action ∧
      (ruleMatches scope r toolsName toolName st).1 = true := by
  induction rules generalizing i t with
  | nil => simp [evaluateFrom] at h
  | cons r rest ih =>
    simp only [evaluateFrom] at h ⊢
    by_cases hm : (ruleMatches scope r toolsName toolName ⟨t, MatchNote.zero⟩).1 = true
    · simp only [hm, if_true, Option.some.injEq] at h ⊢
      exact ⟨r, _, h.le, by simp [← h], rfl, hm⟩
    simp only [hm, if_false, Bool.false_eq_true] at h ⊢
    obtain ⟨r', st, hle, hget, hact, hmatch⟩ := ih h
    refine ⟨r', st, by omega, ?_, hact, hmatch⟩
    have hsub : k - i = (k - (i + 1)) + 1 := by omega
    rw [hsub, List.getElem?_cons_succ]
    exact hget

/-- Every condition of the rule that decided an evaluation has passed. -/
theorem condition_of_matchedRule {p : Policy} {toolsName toolName : String} {k : Nat} {r : Rule}
    (hk : (evaluate host kind p toolsName toolName args).matchedRule = some k)
    (hr : p.rules[k]? = some r) (hc : c ∈ r.when) :
    (evaluate host kind p toolsName toolName args).action = r.action ∧
      ∃ st, (conditionMatches ⟨host, kind, args, p.trustedBinaries⟩ c r.action st).1 = true := by
  obtain ⟨r', st, -, hr', hact, hmatch⟩ := rule_of_evaluateFrom hk
  cases hr.symm.trans hr'
  refine ⟨hact, ?_⟩
  unfold ruleMatches at hmatch
  split at hmatch
  · exact condition_passed hmatch hc
  · cases hmatch

/-- **The structural path verifies every program of the call.** -/
theorem verified_of_structural (scope : EvalScope)
    (hallowed : structuralPrefixAllowed scope.shell prefixList = true)
    (hwords : structuralProgramWords scope.shell ≠ [])
    (hver : ∀ n ∈ structuralProgramWords scope.shell, Verified scope.host tb n)
    (hruns : CallRuns scope.host scope.shellKind scope.args name) :
    ∃ n, name = some n ∧ Verified scope.host tb n := by
  rcases hruns with ⟨f, b, hline, s, assigns, program, rest, has, isCall, rfl⟩ | ⟨hnone, -⟩
  · have heq : scope.shell = _ := analyzeShellArgs_eq hline
    have hmem : stepFromCall assigns (program :: rest) ∈ scope.shell.commands := by
      rw [heq]
      exact mem_commands_of_has (adds_deeperAt _ _) has isCall (by simp) _
    have hnamed : ¬ (scope.shell.commands.any fun cmd => cmd.name = "") = true := by
      intro hany
      exact hwords (by simp only [structuralProgramWords, hany, if_true])
    have hin : (stepFromCall assigns (program :: rest)).name ∈
        structuralProgramWords scope.shell := by
      simp only [structuralProgramWords, hnamed, if_false, Bool.false_eq_true]
      exact List.mem_map.mpr ⟨_, hmem, rfl⟩
    have hne : (wordName program).getD "" ≠ "" := by
      intro he
      exact hnamed (List.any_eq_true.mpr ⟨_, hmem, by simpa [stepFromCall] using he⟩)
    cases hw : wordName program with
    | none => exact absurd (by simp [hw]) hne
    | some n =>
      have hn : (stepFromCall assigns (program :: rest)).name = n := by simp [stepFromCall, hw]
      exact ⟨n, rfl, hver n (hn ▸ hin)⟩
  · have hzero : scope.shell = ShellReading.zero := by
      simp only [EvalScope.shell, analyzeShellArgs, lineFromArgs, hnone]
    rw [hzero] at hallowed
    simp [structuralPrefixAllowed, ShellReading.zero] at hallowed

/-- A prefix condition that passed in an allow rule, as a fact about its list. -/
theorem prefixList_of_condition (hop : c.op = .commandPrefixAllowlist)
    (h : (conditionMatches scope c .allow st).1 = true) :
    (commandPrefixAllowMatch scope c.value .allow st).1 = true := by
  unfold conditionMatches at h
  cases hget : scope.args.get c.key with
  | none => simp [hget] at h
  | some v =>
    rw [hget] at h
    dsimp only at h
    rw [(anyValueMatches_prefixList scope .allow hop _ st).1, Bool.and_eq_true] at h
    exact h.2

end

/-- A call some list admits by its tokens, without its structure objecting, has no program
but its first word. -/
def OnlyFirstWord (host : Host) (kind : Kind) (args : Args) : Prop :=
  ∀ prefixList first, isCommandPrefixAllowed args prefixList = true →
    structuralContradictsPrefix (analyzeShellArgs host.parser host.goos kind args) prefixList =
      false →
    tokenizerProgramWords args = [first] → Resolvable first →
    ∀ name, CallRuns host kind args name → ∃ n, name = some n ∧ trimSpace n = first

/-- Under `OnlyFirstWord` an allow has verified every program. -/
theorem verified_of_onlyFirstWord {p : Policy} {toolsName toolName : String}
    (honly : OnlyFirstWord host kind args) (htb : p.trustedBinaries = some tb)
    (henf : tb.enforced = true) (hallow : AllowedByPrefix host kind p toolsName toolName args)
    (hruns : CallRuns host kind args name) : ∃ n, name = some n ∧ Verified host tb n := by
  obtain ⟨haction, i, r, hi, hr, c, hc, hop⟩ := hallow
  obtain ⟨hact, st, hcond⟩ := condition_of_matchedRule hi hr hc
  rw [← hact, haction] at hcond
  have hscope : (⟨host, kind, args, p.trustedBinaries⟩ : EvalScope).trusted = some tb := htb
  rcases prefixList_passed hscope henf (prefixList_of_condition hop hcond) with
    ⟨hall, hcontra, hver⟩ | ⟨hall, hwords, hver⟩
  · obtain ⟨cmd, first, -, hfirst, -, htrim⟩ := hruns.first_word
    have hv : Verified host tb first := hver first (by
      rw [hfirst]
      exact List.mem_cons_self)
    have hres : Resolvable first := by
      have h := hv.resolvable
      rwa [htrim] at h
    obtain ⟨n, hn, hnt⟩ := honly c.value first hall hcontra hfirst hres name hruns
    exact ⟨n, hn, verified_of_trimSpace_eq (htrim.trans hnt.symm) hv⟩
  · exact verified_of_structural ⟨host, kind, args, p.trustedBinaries⟩ hall hwords hver hruns

/-! ## 3. A machine with one trusted program -/

/-- The machine on which `first` is a program and nothing else is. -/
def onlyProgram (first : String) : Binaries where
  lookPath w := if w = first then some first else none
  evalSymlinks w := if w = first then some "/" else none
  binarySHA256 _ := .error "no digest"

/-- Everything below the root is trusted. -/
def trustRoot : TrustedBinaries := ⟨["/"], []⟩

theorem trimSpace_of_verified_only {first n : String}
    (h : Verified (host.withBinaries (onlyProgram first)) trustRoot n) : trimSpace n = first := by
  obtain ⟨real, hr⟩ := h.resolves
  by_contra hne
  have heval : (host.withBinaries (onlyProgram first)).evalSymlinks (trimSpace n) =
      none := if_neg hne
  have hlook : (host.withBinaries (onlyProgram first)).lookPath (trimSpace n) =
      none := if_neg hne
  simp only [resolveBinary, heval, hlook] at hr
  split at hr
  · cases hr
  split at hr
  · cases hr
  · split at hr <;> cases hr

theorem verified_only (host : Host) {first : String} (htrim : trimSpace first = first)
    (hne : first ≠ "") (hres : Resolvable first) :
    Verified (host.withBinaries (onlyProgram first)) trustRoot first := by
  have heval : (host.withBinaries (onlyProgram first)).evalSymlinks first = some "/" :=
    if_pos rfl
  have hlook : (host.withBinaries (onlyProgram first)).lookPath first = some first := if_pos rfl
  have hreal : resolveBinary (host.withBinaries (onlyProgram first)) first = .ok "/" := by
    have hclean : clean "/" = "/" := by decide
    simp only [resolveBinary, htrim, hne, heval, hlook, hclean, if_false]
    rcases hres with habs | hsep
    · simp [habs]
    · simp [hsep]
  have hkey : ((host.withBinaries (onlyProgram first)).evalSymlinks "/").getD "/" = "/" := by
    change (if "/" = first then some "/" else none).getD "/" = "/"
    split <;> rfl
  have hunder : underAnyTrustedDir (host.withBinaries (onlyProgram first)) "/" ["/"] = true := by
    have htrimRoot : trimSpace "/" = "/" := by decide
    simp only [underAnyTrustedDir, List.any_cons, List.any_nil, htrimRoot, hkey, Bool.or_false]
    decide
  simp [Verified, verifyCommand, hreal, trustRoot, hunder]

/-- The policy that allows what a prefix list admits. -/
def allowPrefixes (prefixList : String) (tb : TrustedBinaries) : Policy where
  defaultAction := none
  rules := [⟨"", "", [⟨"command", .commandPrefixAllowlist, prefixList⟩], .allow, 0, none⟩]
  trustedBinaries := some tb

/-- A call whose tokens the list admits, without an objection of the structure, is allowed
once its first word passes. -/
theorem allowedByPrefix_of_tokens {prefixList first cmd : String} (toolsName toolName : String)
    (hcmd : args.get "command" = some (.str cmd))
    (hall : isCommandPrefixAllowed args prefixList = true)
    (hcontra : structuralContradictsPrefix (analyzeShellArgs host.parser host.goos kind args)
      prefixList = false)
    (hfirst : tokenizerProgramWords args = [first]) (hver : Verified host tb first) :
    AllowedByPrefix host kind (allowPrefixes prefixList tb) toolsName toolName args := by
  have hmatch : ∀ st, commandPrefixAllowMatch ⟨host, kind, args, some tb⟩ prefixList .allow st =
      (true, st) := by
    intro st
    have hv : verifyCommand host tb first = none := hver
    simp only [commandPrefixAllowMatch, hall, EvalScope.shell, hcontra, gate, trusts, hfirst,
      if_true, if_false, Bool.false_eq_true, List.cons_ne_nil, List.findSome?_cons, hv,
      List.findSome?_nil, ite_self]
  have heval : evaluate host kind (allowPrefixes prefixList tb) toolsName toolName args =
      ⟨.allow, some 0, .matchedRule, 0, none, ""⟩ := by
    simp [evaluate, allowPrefixes, evaluateFrom, ruleMatches, Rule.covers, allConditionsMatch,
      conditionMatches, hcmd, conditionValues, anyValueMatches, valueMatches, hmatch,
      detailWithTrustNote, MatchNote.detail, MatchNote.zero]
  refine ⟨by rw [heval], 0, _, by rw [heval], rfl, _, List.mem_singleton_self _, rfl⟩

/-- **When an allow has verified every program.**  For a call, whatever policy with an
enforced block and whatever programs the machine has: an allow through a prefix list has
verified every program of the call exactly when the call has no program but its first word
as soon as some list admits it by its tokens. -/
theorem allow_verified_iff (host : Host) (kind : Kind) (args : Args) :
    (∀ (p : Policy) (tb : TrustedBinaries) (env : Binaries) (toolsName toolName : String),
      p.trustedBinaries = some tb → tb.enforced = true →
      AllowedByPrefix (host.withBinaries env) kind p toolsName toolName args →
      ∀ name, CallRuns host kind args name →
        ∃ n, name = some n ∧ Verified (host.withBinaries env) tb n) ↔
    OnlyFirstWord host kind args := by
  constructor
  · intro h prefixList first hall hcontra hfirst hres name hruns
    obtain ⟨cmd, first', hcmd, hfirst', hne, htrim⟩ := hruns.first_word
    obtain rfl : first = first' := by simpa [hfirst] using hfirst'
    have hver := verified_only host htrim hne hres
    obtain ⟨n, hn, hv⟩ := h (allowPrefixes prefixList trustRoot) trustRoot (onlyProgram first) "" ""
      rfl rfl (allowedByPrefix_of_tokens "" "" hcmd hall hcontra hfirst hver) name hruns
    exact ⟨n, hn, trimSpace_of_verified_only hv⟩
  · intro honly p tb env toolsName toolName htb henf hallow name hruns
    have honly' : OnlyFirstWord (host.withBinaries env) kind args := honly
    exact verified_of_onlyFirstWord honly' htb henf hallow hruns

/-- A machine where `git` is trusted and `ls` is not. -/
def gitHost : Host := plainHost.withBinaries (onlyProgram "git")

/-- **A line break hides a program.**  The call is `git status`, a line break, `ls`; the list
is `git status, ls`.  The policy allows it, the line runs `ls`, and `ls` does not pass. -/
theorem newline_program_not_verified :
    ∃ (host : Host) (kind : Kind) (p : Policy) (tb : TrustedBinaries)
      (toolsName toolName : String) (args : Args),
      p.trustedBinaries = some tb ∧ tb.enforced = true ∧
      AllowedByPrefix host kind p toolsName toolName args ∧
      CallRuns host kind args (some "ls") ∧ ¬ Verified host tb "ls" := by
  refine ⟨gitHost, .posix, allowPrefixes "git status, ls" trustRoot, trustRoot, "local_shell",
    "local_shell", lineCall "git status\nls", rfl, rfl, ?_, ?_, ?_⟩
  · refine ⟨by decide +kernel, 0, _, by decide +kernel, rfl, _, List.mem_singleton_self _, rfl⟩
  · refine .inl ⟨⟨[["git", "status"], ["ls"]].map plainCommand⟩, false, ?_, ?_⟩
    · exact readsAs_plain (by decide +kernel) (by decide +kernel) (by decide +kernel)
        (by decide +kernel)
    · exact ⟨plainCommand ["ls"], [], .mk [.lit "ls"], [], ⟨_, by simp, .refl⟩, rfl,
        by decide +kernel⟩
  · unfold Verified
    decide +kernel

end Contenox.Hitl
