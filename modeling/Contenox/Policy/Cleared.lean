/-
# What a cleared line looks like

A line of several commands is let through without a question when `structuralPrefixAllowed`
accepts its reading.  Two passes share that decision: `fileClearedForUpgrade` goes down the tree
and turns away every kind of node it does not know, and the prefix list is held against the
COLLECTED commands.  Every simple command of the tree is among those (`mem_commands_of_has`), so
the two look at the same commands, and an accepted tree is `Joined`: simple commands joined by
`&&`, `||` and `|`, bare of everything else, each of literal words and each listed
(`joined_of_structuralPrefixAllowed`).

A listed prefix names a PROGRAM.  An absolute path in the place of the program is read by its last
component, so `/usr/bin/git status` begins with `git status` although its words do not
(`absolute_program_cleared`).
-/
import Contenox.Policy.Reveal

namespace Contenox.Hitl

open Lib Shell GoStrings

/-! ## 1. Words that are what they say -/

/-- A part of a word with no expansion, no glob and no escape. -/
inductive LiteralPart : WordPart → Prop
  | lit {v : String} (h : containsAny v wordUnsafeMeta = false) : LiteralPart (.lit v)
  | sglQuoted (v : String) : LiteralPart (.sglQuoted false v)
  | dblQuoted {vs : List String} (h : ∀ v ∈ vs, contains v "\\" = false) :
      LiteralPart (.dblQuoted false (vs.map .lit))

/-- Every part of the word is literal. -/
def Literal (w : Word) : Prop := w.parts ≠ [] ∧ ∀ p ∈ w.parts, LiteralPart p

variable {t prefixList : String} {ps : List WordPart}

theorem lits_of_literalInner (h : literalInner ps = some t) :
    ∃ vs : List String, ps = vs.map .lit ∧ ∀ v ∈ vs, contains v "\\" = false := by
  induction ps generalizing t with
  | nil => exact ⟨[], rfl, by simp⟩
  | cons p ps ih =>
    cases p with
    | lit v =>
      simp only [literalInner, Option.ite_none_left_eq_some, Option.map_eq_some_iff,
        Bool.not_eq_true] at h
      obtain ⟨hv, t', ht', -⟩ := h
      obtain ⟨vs, rfl, hvs⟩ := ih ht'
      exact ⟨v :: vs, rfl, by simpa using ⟨hv, hvs⟩⟩
    | _ => cases h

theorem literalPart_literal {p : WordPart} (h : literalPart p = some t) : LiteralPart p := by
  cases p with
  | lit v =>
    simp only [literalPart, Option.ite_none_left_eq_some] at h
    exact .lit (by simpa using h.1)
  | sglQuoted dollar v =>
    simp only [literalPart, Option.ite_none_left_eq_some, Bool.not_eq_true] at h
    obtain ⟨rfl, -⟩ := h
    exact .sglQuoted v
  | dblQuoted dollar ps =>
    simp only [literalPart, Option.ite_none_left_eq_some, Bool.not_eq_true] at h
    obtain ⟨rfl, h⟩ := h
    obtain ⟨vs, rfl, hvs⟩ := lits_of_literalInner h
    exact .dblQuoted hvs
  | _ => cases h

theorem read_of_concatParts {read : WordPart → Option String} (h : concatParts read ps = some t) :
    ∀ p ∈ ps, ∃ s, read p = some s := by
  induction ps generalizing t with
  | nil => simp
  | cons p ps ih =>
    obtain ⟨s, hs, h⟩ := Option.bind_eq_some_iff.mp h
    obtain ⟨t', ht', -⟩ := Option.map_eq_some_iff.mp h
    simpa using ⟨⟨s, hs⟩, ih ht'⟩

theorem literal_of_literalWord {w : Word} (h : (literalWord w).isSome = true) : Literal w := by
  obtain ⟨t, h⟩ := Option.isSome_iff_exists.mp h
  simp only [literalWord, Option.ite_none_left_eq_some, List.isEmpty_iff] at h
  refine ⟨h.1, fun p hp => ?_⟩
  obtain ⟨s, hs⟩ := read_of_concatParts h.2 p hp
  exact literalPart_literal hs

/-! ## 2. The accepted trees -/

/-- Simple commands joined by `&&`, `||` and `|`: no other command, no redirection, no assignment,
nothing negated or sent to the background. -/
inductive Joined (call : List Word → Prop) : Stmt → Prop
  | call {args : List Word} (h : call args) : Joined call (.plain (.callExpr [] args))
  | join {op : BinCmdOperator} {x y : Stmt} (hop : op ≠ .pipeAll) (hx : Joined call x)
      (hy : Joined call y) : Joined call (.plain (.binaryCmd op x y))

/-- The words of a call, its program by the name the allowlist knows. -/
def namedWords (args : List Word) : List String :=
  match args.filterMap literalWord with
  | [] => []
  | program :: rest => allowlistProgramWord program :: rest

/-- Literal words that begin with the words of an entry of the list. -/
structure Listed (prefixList : String) (args : List Word) : Prop where
  literal : ∀ w ∈ args, Literal w
  begins : ∃ entry ∈ split prefixList ',', fields entry ≠ [] ∧
    fields entry <+: namedWords args

/-- What the second pass asks of a collected command. -/
def vouched (prefixList : String) (cmd : Step) : Bool :=
  cmd.literal && !cmd.words.isEmpty && cmd.assigns.isEmpty &&
    !unclearedCommandNames.contains cmd.base &&
    prefixListMatchesTokens (tokensOf cmd) prefixList

theorem listed_of_vouched {args : List Word} (h : vouched prefixList
    (stepFromCall [] args) = true) :
    Listed prefixList args := by
  simp only [vouched, Bool.and_eq_true] at h
  obtain ⟨⟨⟨⟨hlit, hwords⟩, -⟩, -⟩, hmatch⟩ := h
  cases args with
  | nil => cases hlit
  | cons program rest =>
    have hall : ((program :: rest).all fun w => (literalWord w).isSome) = true := hlit
    have htokens : tokensOf (stepFromCall [] (program :: rest)) = namedWords (program :: rest) := by
      have hvalues : (stepFromCall [] (program :: rest)).words =
          (program :: rest).filterMap literalWord := if_pos hall
      unfold tokensOf namedWords
      rw [hlit, hwords, hvalues]
      rfl
    rw [htokens, prefixListMatchesTokens, List.any_eq_true] at hmatch
    obtain ⟨entry, hentry, hbegins⟩ := hmatch
    refine ⟨fun w hw => literal_of_literalWord (List.all_eq_true.mp hall w hw), entry, hentry, ?_⟩
    simpa using hbegins

theorem joined_of_cleared {f : File}
    (hcalls : ∀ args, f.Has (.stmt (.plain (.callExpr [] args))) → args ≠ [] →
      Listed prefixList args)
    {s : Stmt} (hs : f.Has (.stmt s)) (h : stmtClearedForUpgrade s = true) :
    Joined (Listed prefixList) s := by
  induction s using stmtClearedForUpgrade.induct with
  | case1 assigns args redirs negated background coprocess disown =>
    simp only [stmtClearedForUpgrade, callClearedForUpgrade, Bool.and_eq_true, Bool.not_eq_true',
      Bool.or_eq_false_iff, List.isEmpty_iff] at h
    obtain ⟨⟨⟨⟨⟨rfl, rfl⟩, rfl⟩, rfl⟩, rfl⟩, h⟩ := h
    cases args with
    | nil => cases h
    | cons program rest =>
      obtain rfl : assigns = [] := by simpa using (Bool.and_eq_true_iff.mp
        (Bool.and_eq_true_iff.mp h).1).1
      exact .call (hcalls _ hs (List.cons_ne_nil _ _))
  | case2 op x y redirs negated background coprocess disown hx hy =>
    simp only [stmtClearedForUpgrade, Bool.and_eq_true, Bool.not_eq_true', Bool.or_eq_false_iff,
      List.isEmpty_iff] at h
    obtain ⟨⟨⟨⟨⟨rfl, rfl⟩, rfl⟩, rfl⟩, rfl⟩, h⟩ := h
    obtain ⟨root, hroot, hbelow⟩ := hs
    have hside : ∀ z ∈ [x, y], f.Has (.stmt z) := by
      intro z hz
      refine ⟨root, hroot, (hbelow.tail (c := .command (.binaryCmd op x y)) ?_).tail ?_⟩
      · simp [Node.children]
      · simpa [Node.children] using hz
    cases op with
    | pipeAll => cases h
    | _ =>
      obtain ⟨hcx, hcy⟩ := Bool.and_eq_true_iff.mp h
      exact .join (by simp) (hx (hside x (by simp)) hcx) (hy (hside y (by simp)) hcy)
  | case3 s hcall hbin =>
    unfold stmtClearedForUpgrade at h
    split at h
    · exact absurd rfl (hcall _ _ _ _ _ _ _)
    · exact absurd rfl (hbin _ _ _ _ _ _ _ _)
    · cases h

/-- The reading of a tree, as `analyzeShellArgs` makes it of a line that has this tree
(`analyzeShellArgs_eq`). -/
def readTree (parser : Parser) (f : File) (bashOnly : Bool) : ShellReading :=
  { collectShellNodes (deeperAt parser maxRevealDepth) f
      { ShellReading.zero with analyzed := true, parsed := true } with
    upgradable := !bashOnly && fileClearedForUpgrade f }

/-- **An accepted tree is made of listed simple commands and nothing else.** -/
theorem joined_of_structuralPrefixAllowed (parser : Parser) (f : File) (bashOnly : Bool)
    (prefixList : String)
    (h : structuralPrefixAllowed (readTree parser f bashOnly) prefixList = true) :
    ∃ s, f.stmts = [s] ∧ Joined (Listed prefixList) s := by
  simp only [structuralPrefixAllowed, readTree, Bool.and_eq_true] at h
  obtain ⟨⟨-, ⟨⟨-, -, hcleared⟩, -⟩⟩, hall⟩ := h
  unfold fileClearedForUpgrade at hcleared
  split at hcleared
  · next s hstmts =>
    refine ⟨s, hstmts, joined_of_cleared (f := f) (fun args hhas hne => ?_) ?_ hcleared⟩
    · have hmem := mem_commands_of_has (adds_deeperAt parser maxRevealDepth) hhas rfl hne
        { ShellReading.zero with analyzed := true, parsed := true }
      exact listed_of_vouched (List.all_eq_true.mp hall _ hmem)
    · exact ⟨s, hstmts ▸ List.mem_cons_self, Relation.ReflTransGen.refl⟩
  · cases hcleared

/-- `/usr/bin/git status && git diff`. -/
def gitLine : File := ⟨[.plain (.binaryCmd .andStmt (plainCommand ["/usr/bin/git", "status"])
  (plainCommand ["git", "diff"]))]⟩

/-- The words of the first command are not the words of any entry. -/
theorem absolute_program_cleared :
    structuralPrefixAllowed (readTree plainParser gitLine false) "git status,git diff" = true ∧
      gitLine.Has (.stmt (plainCommand ["/usr/bin/git", "status"])) ∧
      ∀ entry ∈ split "git status,git diff" ',', ¬ fields entry <+: ["/usr/bin/git", "status"] := by
  refine ⟨by decide, File.mem_walk_iff.mp ?_, by decide⟩
  exact List.mem_cons_of_mem _ (List.mem_cons_of_mem _ List.mem_cons_self)

theorem joined_of_structuralPrefixAllowed_git :
    structuralPrefixAllowed (readTree plainParser gitLine false) "git" = true ∧
      ∃ s, gitLine.stmts = [s] ∧ Joined (Listed "git") s := by
  have h : structuralPrefixAllowed (readTree plainParser gitLine false) "git" = true := by decide
  exact ⟨h, joined_of_structuralPrefixAllowed plainParser gitLine false "git" h⟩

end Contenox.Hitl
