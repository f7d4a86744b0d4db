/-
# A trusted-binaries block only withholds

The block of `trusted_binaries` is consulted in one place: before a prefix list grants an
allow.  So adding it to a policy should change a result only by withholding an allow, and
`evaluate_with_block` says that it does.

The two evaluations run side by side over the same rules.  As long as no allow was withheld
they are at the same rule with the same match note, and they differ in the trust note alone.
An ask SHOWS the trust note in its `Detail`, so the result of an ask is not quite the same
with the block as without it (`ask_detail_changes`).
-/
import Contenox.Policy.Reveal

namespace Contenox.Hitl

open Lib Shell

/-! ## 1. Two evaluations side by side -/

/-- The result `x` of a test with the block against the result `x0` without it: the block can
only make an allow rule fail, and where the test passes the match notes are the same. -/
structure Withholds (action : Action) (x x0 : Bool × EvalState) : Prop where
  passes : x.1 = true → x0.1 = true
  withheld : x0.1 = true → x.1 = false → action = .allow
  note : x.1 = true → x.2.note = x0.2.note

/-- A test that fails either way. -/
theorem withholds_fails (action : Action) (st st0 : EvalState) :
    Withholds action (false, st) (false, st0) :=
  ⟨id, nofun, nofun⟩

/-- The same evaluation without a block. -/
def EvalScope.bare (scope : EvalScope) : EvalScope := { scope with trusted := none }

variable {scope : EvalScope} {action : Action} {c : Condition} (names : List String)
  (st : EvalState)

@[simp] theorem trusts_bare : trusts scope.bare names st = (true, st) := rfl

theorem gate_bare : gate scope.bare action names st = (true, st) := by
  unfold gate
  split <;> rfl

theorem noteTrustRefusal_note (msg : String) : (st.noteTrustRefusal msg).note = st.note := by
  unfold EvalState.noteTrustRefusal
  split <;> rfl

/-- The check never touches the match note, and whether it passes does not depend on the notes
taken. -/
theorem gate_steady (st' : EvalState) :
    (gate scope action names st).2.note = st.note ∧
      (gate scope action names st).1 = (gate scope action names st').1 := by
  unfold gate trusts
  split
  · cases scope.trusted with
    | none => exact ⟨rfl, rfl⟩
    | some tb =>
      dsimp only
      split
      · split
        · exact ⟨noteTrustRefusal_note st _, rfl⟩
        split
        · exact ⟨noteTrustRefusal_note st _, rfl⟩
        · exact ⟨rfl, rfl⟩
      · exact ⟨rfl, rfl⟩
  · exact ⟨rfl, rfl⟩

theorem gate_of_ne_allow (h : action ≠ .allow) (names : List String) (st : EvalState) :
    gate scope action names st = (true, st) := by
  unfold gate
  rw [if_neg h]

/-- What a prefix list answers before the check is asked. -/
def prefixListAnswers (scope : EvalScope) (prefixList : String) : Option (List String) :=
  if isCommandPrefixAllowed scope.args prefixList then
    if structuralContradictsPrefix scope.shell prefixList then none
    else some (tokenizerProgramWords scope.args)
  else if structuralPrefixAllowed scope.shell prefixList then
    some (structuralProgramWords scope.shell)
  else none

/-- The prefix condition is the list's answer, put to the check. -/
theorem commandPrefixAllowMatch_eq (prefixList : String) (st : EvalState) :
    commandPrefixAllowMatch scope prefixList action st =
      ((prefixListAnswers scope prefixList).elim (false, st) fun names =>
        gate scope action names st) := by
  unfold commandPrefixAllowMatch prefixListAnswers
  split
  · split <;> rfl
  · split <;> rfl

theorem commandPrefixAllowMatch_steady (scope : EvalScope) (action : Action)
    (prefixList : String) (st st' : EvalState) :
    (commandPrefixAllowMatch scope prefixList action st).2.note = st.note ∧
      (commandPrefixAllowMatch scope prefixList action st).1 =
        (commandPrefixAllowMatch scope prefixList action st').1 := by
  rw [commandPrefixAllowMatch_eq, commandPrefixAllowMatch_eq]
  cases prefixListAnswers scope prefixList with
  | none => exact ⟨rfl, rfl⟩
  | some names => exact gate_steady names st st'

/-- The block can only withhold the prefix condition of an allow rule. -/
theorem commandPrefixAllowMatch_bare (scope : EvalScope) (action : Action)
    (prefixList : String) (st st0 : EvalState) :
    ((commandPrefixAllowMatch scope prefixList action st).1 = true →
      (commandPrefixAllowMatch scope.bare prefixList action st0).1 = true) ∧
    ((commandPrefixAllowMatch scope.bare prefixList action st0).1 = true →
      (commandPrefixAllowMatch scope prefixList action st).1 = false → action = .allow) := by
  have hsame : prefixListAnswers scope.bare prefixList = prefixListAnswers scope prefixList := rfl
  rw [commandPrefixAllowMatch_eq, commandPrefixAllowMatch_eq, hsame]
  cases prefixListAnswers scope prefixList with
  | none => exact ⟨id, nofun⟩
  | some names =>
    refine ⟨fun _ => by simp [gate_bare], fun _ hfail => ?_⟩
    by_contra hne
    simp [gate_of_ne_allow hne] at hfail

/-- A condition that is not a prefix list does not see the block, and leaves the trust note
alone. -/
theorem valueMatches_of_ne (h : c.op ≠ .commandPrefixAllowlist) (s : String)
    (st : EvalState) (t : String) :
    valueMatches scope.bare c action s { st with trustNote := t } =
      ((valueMatches scope c action s st).1,
        { (valueMatches scope c action s st).2 with trustNote := t }) := by
  have hlist : commandInListMatch scope.bare c.value = commandInListMatch scope c.value := rfl
  unfold valueMatches
  cases hop : c.op with
  | commandPrefixAllowlist => exact absurd hop h
  | commandBlacklist | commandAskAlways =>
    rw [hlist]
    cases commandInListMatch scope c.value <;> rfl
  | _ => rfl

theorem anyValueMatches_of_ne (scope : EvalScope) (action : Action)
    (h : c.op ≠ .commandPrefixAllowlist) (l : List String) (st : EvalState) (t : String) :
    anyValueMatches scope.bare c action l { st with trustNote := t } =
      ((anyValueMatches scope c action l st).1,
        { (anyValueMatches scope c action l st).2 with trustNote := t }) := by
  induction l generalizing st with
  | nil => rfl
  | cons s l ih =>
    simp only [anyValueMatches, valueMatches_of_ne h]
    by_cases hit : (valueMatches scope c action s st).1 = true
    · simp only [hit, if_true]
    · simp only [hit, if_false, Bool.false_eq_true]
      exact ih _

theorem valueMatches_prefixList (h : c.op = .commandPrefixAllowlist) (s : String) (st : EvalState) :
    valueMatches scope c action s st = commandPrefixAllowMatch scope c.value action st := by
  unfold valueMatches
  rw [h]

variable (scope)

/-- The values of a prefix condition are not looked at: one is enough to put the question. -/
theorem anyValueMatches_prefixList (action : Action)
    (h : c.op = .commandPrefixAllowlist) (l : List String) (st : EvalState) :
    (anyValueMatches scope c action l st).1 =
        (!l.isEmpty && (commandPrefixAllowMatch scope c.value action st).1) ∧
      (anyValueMatches scope c action l st).2.note = st.note := by
  induction l generalizing st with
  | nil => exact ⟨rfl, rfl⟩
  | cons s l ih =>
    simp only [anyValueMatches, valueMatches_prefixList h]
    obtain ⟨hnote, hfst⟩ := commandPrefixAllowMatch_steady scope action c.value st
      (commandPrefixAllowMatch scope c.value action st).2
    by_cases hit : (commandPrefixAllowMatch scope c.value action st).1 = true
    · simp only [hit, if_true]
      exact ⟨rfl, hnote⟩
    obtain ⟨h1, h2⟩ := ih (commandPrefixAllowMatch scope c.value action st).2
    simp only [hit, if_false, Bool.false_eq_true]
    refine ⟨?_, h2.trans hnote⟩
    rw [h1, ← hfst]
    simp [hit]

theorem anyValueMatches_bare_state (action : Action) (h : c.op = .commandPrefixAllowlist)
    (l : List String) (st : EvalState) : (anyValueMatches scope.bare c action l st).2 = st := by
  have hstate : (commandPrefixAllowMatch scope.bare c.value action st).2 = st := by
    rw [commandPrefixAllowMatch_eq]
    cases prefixListAnswers scope.bare c.value with
    | none => rfl
    | some names => exact congrArg Prod.snd (gate_bare names st)
  induction l with
  | nil => rfl
  | cons s l ih =>
    simp only [anyValueMatches, valueMatches_prefixList h, hstate]
    split
    · rfl
    · exact ih

/-- **One condition, with and without the block.** -/
theorem conditionMatches_withholds (action : Action) (c : Condition)
    {st st0 : EvalState} (hnote : st.note = st0.note) :
    Withholds action (conditionMatches scope c action st)
      (conditionMatches scope.bare c action st0) ∧
    (conditionMatches scope.bare c action st0).2.trustNote = st0.trustNote := by
  have hargs : scope.bare.args = scope.args := rfl
  unfold conditionMatches
  rw [hargs]
  cases scope.args.get c.key with
  | none => exact ⟨withholds_fails action st st0, rfl⟩
  | some v =>
    dsimp only
    by_cases hop : c.op = .commandPrefixAllowlist
    · obtain ⟨h1, h2⟩ := anyValueMatches_prefixList scope action hop (conditionValues v) st
      obtain ⟨h1', -⟩ := anyValueMatches_prefixList scope.bare action hop (conditionValues v) st0
      have hbare := anyValueMatches_bare_state scope action hop (conditionValues v) st0
      obtain ⟨hpass, hheld⟩ := commandPrefixAllowMatch_bare scope action c.value st st0
      refine ⟨⟨fun h => ?_, fun h h' => ?_, fun _ => ?_⟩, by rw [hbare]⟩
      · rw [h1, Bool.and_eq_true] at h
        rw [h1', Bool.and_eq_true]
        exact ⟨h.1, hpass h.2⟩
      · rw [h1', Bool.and_eq_true] at h
        rw [h1, h.1, Bool.true_and] at h'
        exact hheld h.2 h'
      · rw [h2, hbare, hnote]
    · have heq := anyValueMatches_of_ne scope action hop (conditionValues v) st st0.trustNote
      have hst0 : { st with trustNote := st0.trustNote } = st0 := by
        cases st
        cases st0
        simpa using hnote
      rw [hst0] at heq
      rw [heq]
      exact ⟨⟨id, fun h h' => absurd h (by simp [h']), fun _ => rfl⟩, rfl⟩

/-- Without a block no trust note is ever taken. -/
theorem allConditionsMatch_bare_trustNote (action : Action) (l : List Condition)
    (st : EvalState) : (allConditionsMatch scope.bare action l st).2.trustNote = st.trustNote := by
  induction l generalizing st with
  | nil => rfl
  | cons c l ih =>
    have ht := (conditionMatches_withholds scope action c (rfl : st.note = st.note)).2
    simp only [allConditionsMatch]
    split
    · exact (ih _).trans ht
    · exact ht

variable {scope}

/-- The conditions of a rule, with and without the block. -/
theorem allConditionsMatch_withholds {l : List Condition} {st st0 : EvalState}
    (hnote : st.note = st0.note) :
    Withholds action (allConditionsMatch scope action l st)
      (allConditionsMatch scope.bare action l st0) := by
  induction l generalizing st st0 with
  | nil => exact ⟨id, nofun, fun _ => hnote⟩
  | cons c l ih =>
    obtain ⟨hw, -⟩ := conditionMatches_withholds scope action c hnote
    simp only [allConditionsMatch]
    by_cases h0 : (conditionMatches scope.bare c action st0).1 = true
    · by_cases h : (conditionMatches scope c action st).1 = true
      · simp only [h, h0, if_true]
        exact ih (hw.note h)
      -- an allow was withheld: the rule fails here, whatever it does without the block
      have hallow := hw.withheld h0 (by simpa using h)
      simp only [h, h0, if_true, if_false, Bool.false_eq_true]
      exact ⟨nofun, fun _ _ => hallow, nofun⟩
    · have h : ¬ (conditionMatches scope c action st).1 = true := fun h => h0 (hw.passes h)
      simp only [h, h0, if_false, Bool.false_eq_true]
      exact withholds_fails action _ _

variable (scope)

/-- **One rule, with and without the block.** -/
theorem ruleMatches_withholds (r : Rule) (toolsName toolName t : String) :
    Withholds r.action (ruleMatches scope r toolsName toolName ⟨t, MatchNote.zero⟩)
      (ruleMatches scope.bare r toolsName toolName ⟨"", MatchNote.zero⟩) ∧
    (ruleMatches scope.bare r toolsName toolName ⟨"", MatchNote.zero⟩).2.trustNote = "" := by
  unfold ruleMatches
  split
  · exact ⟨allConditionsMatch_withholds rfl, allConditionsMatch_bare_trustNote scope _ _ _⟩
  · exact ⟨withholds_fails _ _ _, rfl⟩

theorem valueMatches_fst (c : Condition) (action : Action) (s : String) (st st' : EvalState) :
    (valueMatches scope c action s st).1 = (valueMatches scope c action s st').1 := by
  unfold valueMatches
  split
  · rfl
  · rfl
  · rfl
  · cases commandInListMatch scope c.value <;> rfl
  · cases commandInListMatch scope c.value <;> rfl
  · rfl
  · exact (commandPrefixAllowMatch_steady scope action c.value st st').2
  · rfl

theorem anyValueMatches_fst (c : Condition) (action : Action) (l : List String)
    (st st' : EvalState) :
    (anyValueMatches scope c action l st).1 = (anyValueMatches scope c action l st').1 := by
  induction l generalizing st st' with
  | nil => rfl
  | cons s l ih =>
    have hhead := valueMatches_fst scope c action s st st'
    simp only [anyValueMatches, hhead]
    split
    · rfl
    · exact ih _ _

theorem allConditionsMatch_fst (action : Action) (l : List Condition) (st st' : EvalState) :
    (allConditionsMatch scope action l st).1 = (allConditionsMatch scope action l st').1 := by
  induction l generalizing st st' with
  | nil => rfl
  | cons c l ih =>
    have hhead : (conditionMatches scope c action st).1 = (conditionMatches scope c action st').1 := by
      unfold conditionMatches
      cases scope.args.get c.key with
      | none => rfl
      | some v => exact anyValueMatches_fst scope c action _ st st'
    simp only [allConditionsMatch, hhead]
    split
    · exact ih _ _
    · rfl

/-- Whether a rule matches depends on nothing that was noted before. -/
theorem ruleMatches_fst (r : Rule) (toolsName toolName : String) (st st' : EvalState) :
    (ruleMatches scope r toolsName toolName st).1 =
      (ruleMatches scope r toolsName toolName st').1 := by
  unfold ruleMatches
  split
  · exact allConditionsMatch_fst scope r.action r.when st st'
  · rfl

/-- A rule that does not allow matches with the block as it does without. -/
theorem ruleMatches_bare {scope : EvalScope} {r : Rule} (hne : r.action ≠ .allow)
    (toolsName toolName : String) (st : EvalState) :
    (ruleMatches scope r toolsName toolName st).1 =
      (ruleMatches scope.bare r toolsName toolName ⟨"", MatchNote.zero⟩).1 := by
  obtain ⟨hw, -⟩ := ruleMatches_withholds scope r toolsName toolName ""
  rw [ruleMatches_fst scope r toolsName toolName st ⟨"", MatchNote.zero⟩, Bool.eq_iff_iff]
  constructor
  · exact hw.passes
  intro h
  by_contra hfail
  exact hne (hw.withheld h (by simpa using hfail))

/-- The result with a trust note added to the `Detail` it shows, which only an ask does. -/
def EvaluationResult.withTrustNote (r : EvaluationResult) (trustNote : String) :
    EvaluationResult :=
  { r with detail := detailWithTrustNote r.detail r.action trustNote }

/-- Without a note there is nothing to show. -/
theorem detailWithTrustNote_empty (base : String) (action : Action) :
    detailWithTrustNote base action "" = base := by
  simp [detailWithTrustNote]

/-- The trust note the rule loop has taken where it ends: the first refusal of the check. -/
def trustNoteFrom (scope : EvalScope) (toolsName toolName : String) : List Rule → String → String
  | [], t => t
  | r :: rest, t =>
    let (hit, st) := ruleMatches scope r toolsName toolName ⟨t, MatchNote.zero⟩
    if hit then st.trustNote else trustNoteFrom scope toolsName toolName rest st.trustNote

/-- **The rule loop, with and without the block**, from any rule on and whatever the trust
note of the run with the block is by then. -/
theorem evaluateFrom_withholds (scope : EvalScope) (defaultAction : Option Action)
    (toolsName toolName : String) (rules : List Rule) (i : Nat) (t : String) :
    (evaluateFrom scope.bare defaultAction toolsName toolName i rules "").action = .allow ∨
    evaluateFrom scope defaultAction toolsName toolName i rules t =
      (evaluateFrom scope.bare defaultAction toolsName toolName i rules "").withTrustNote
        (trustNoteFrom scope toolsName toolName rules t) := by
  induction rules generalizing i t with
  | nil =>
    right
    simp only [evaluateFrom, trustNoteFrom, detailWithTrustNote_empty,
      EvaluationResult.withTrustNote]
  | cons r rest ih =>
    obtain ⟨hw, ht⟩ := ruleMatches_withholds scope r toolsName toolName t
    simp only [evaluateFrom, trustNoteFrom]
    by_cases h0 : (ruleMatches scope.bare r toolsName toolName ⟨"", MatchNote.zero⟩).1 = true
    · by_cases h : (ruleMatches scope r toolsName toolName ⟨t, MatchNote.zero⟩).1 = true
      · right
        simp only [h, h0, if_true, ht, detailWithTrustNote_empty, hw.note h,
          EvaluationResult.withTrustNote]
        rfl
      · left
        simp only [h0, if_true]
        exact hw.withheld h0 (by simpa using h)
    · have h : ¬ (ruleMatches scope r toolsName toolName ⟨t, MatchNote.zero⟩).1 = true :=
        fun h => h0 (hw.passes h)
      simp only [h, h0, if_false, Bool.false_eq_true, ht]
      exact ih _ _

/-- **A block only withholds.**  With a block added, a policy gives the result it gives
without one, with the first refusal of the check added to the `Detail` of an ask; or without the
block it gave allow. -/
theorem evaluate_with_block (host : Host) (kind : Kind) (p : Policy) (tb : TrustedBinaries)
    (toolsName toolName : String) (args : Args) :
    (evaluate host kind { p with trustedBinaries := none } toolsName toolName args).action =
        .allow ∨
    evaluate host kind { p with trustedBinaries := some tb } toolsName toolName args =
      (evaluate host kind { p with trustedBinaries := none } toolsName toolName
        args).withTrustNote
          (trustNoteFrom ⟨host, kind, args, some tb⟩ toolsName toolName p.rules "") :=
  evaluateFrom_withholds ⟨host, kind, args, some tb⟩ p.defaultAction toolsName toolName p.rules 0 ""

/-- A rule that allows `ls` in one directory only. -/
def allowLsInSrv : Rule where
  tools := "local_shell"
  tool := "local_shell"
  when := [⟨"command", .commandPrefixAllowlist, "ls"⟩, ⟨"cwd", .eq, "/srv"⟩]
  action := .allow
  timeoutS := 0
  onTimeout := none

/-- **The same ask with another `Detail`.**  `ls` outside `/srv` is asked about with and
without the block.  With the block the ask says that an allow was refused, although the rule
that would have allowed does not match. -/
theorem ask_detail_changes :
    ∃ (host : Host) (kind : Kind) (p : Policy) (tb : TrustedBinaries)
      (toolsName toolName : String) (args : Args),
      (evaluate host kind { p with trustedBinaries := none } toolsName toolName args).action =
        .approve ∧
      evaluate host kind { p with trustedBinaries := some tb } toolsName toolName args ≠
        evaluate host kind { p with trustedBinaries := none } toolsName toolName args :=
  ⟨plainHost, .posix, ⟨none, [allowLsInSrv], none⟩, ⟨["/usr/bin"], []⟩, "local_shell",
    "local_shell", lineCall "ls", by decide +kernel, by decide +kernel⟩

end Contenox.Hitl
