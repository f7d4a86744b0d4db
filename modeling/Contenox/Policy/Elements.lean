/-
# A condition on a list of values

`conditionMatches` serves deny rules and allow rules alike: a list matches when SOME element does.
For a deny that is the safe reading.  For an allow it is not: a call on one file inside a pattern and
one outside is allowed on the strength of the first (`outside_file_allowed`).

`allow_covers_elements_iff` says for which lists an allow is about every element, whatever the policy:
those whose elements all read the same.
-/
import Contenox.Policy.Verified

namespace Contenox.Hitl

open Lib Shell

/-- The conditions that look at the value of an argument. -/
def Condition.OnValue (c : Condition) : Prop := c.op = .eq ∨ c.op = .glob ∨ c.op = .host

/-- One text against such a condition. -/
def Condition.admits (host : Host) (c : Condition) (s : String) : Bool :=
  match c.op with
  | .eq => s = c.value
  | .glob => globMatch host.pathMatch c.value s
  | .host => urlHostMatches host s c.value
  | _ => false

/-- The policy allows the call through this rule. -/
def AllowedBy (host : Host) (kind : Kind) (p : Policy) (toolsName toolName : String) (args : Args)
    (r : Rule) : Prop :=
  r.action = .allow ∧ ∃ k, (evaluate host kind p toolsName toolName args).matchedRule = some k ∧
    p.rules[k]? = some r

variable {scope : EvalScope} {c : Condition} {action : Action} {st : EvalState}

theorem valueMatches_of_onValue (hc : c.OnValue) (s : String) :
    valueMatches scope c action s st = (c.admits scope.host s, st) := by
  unfold valueMatches Condition.admits
  rcases hc with hop | hop | hop <;> simp only [hop]

/-- One element is enough. -/
theorem anyValueMatches_iff (hc : c.OnValue) (l : List String) :
    (anyValueMatches scope c action l st).1 = true ↔ ∃ s ∈ l, c.admits scope.host s = true := by
  induction l with
  | nil => simp [anyValueMatches]
  | cons s l ih =>
    simp only [anyValueMatches, valueMatches_of_onValue hc, List.exists_mem_cons_iff]
    split
    · next hs => simp [hs]
    · next hs => simp [hs, ih]

/-- The rule that allows exactly the calls with the text `s` under `key`. -/
def textRule (key s : String) : Rule := ⟨"", "", [⟨key, .eq, s⟩], .allow, 0, none⟩

/-- **Which lists an allow covers**: an allow through a rule with an equality, glob or host condition
on the argument holds for every element, whatever the policy, exactly when the elements are all one
text. -/
theorem allow_covers_elements_iff (host : Host) (kind : Kind) (args : Args) (key : String)
    (v : ArgValue) (hv : args.get key = some v) :
    (∀ p toolsName toolName r c, AllowedBy host kind p toolsName toolName args r → c ∈ r.when →
        c.OnValue → c.key = key → ∀ s ∈ conditionValues v, c.admits host s = true) ↔
      ∀ s ∈ conditionValues v, ∀ t ∈ conditionValues v, s = t := by
  constructor
  · intro h s hs t ht
    have hc : Condition.OnValue ⟨key, .eq, s⟩ := .inl rfl
    have hany : (anyValueMatches ⟨host, kind, args, none⟩ ⟨key, .eq, s⟩ .allow (conditionValues v)
        ⟨"", MatchNote.zero⟩).1 = true := (anyValueMatches_iff hc _).mpr ⟨s, hs, by simp [Condition.admits]⟩
    have hallowed : AllowedBy host kind ⟨none, [textRule key s], none⟩ "" "" args (textRule key s) := by
      refine ⟨rfl, 0, ?_, rfl⟩
      simp [evaluate, evaluateFrom, ruleMatches, Rule.covers, textRule, allConditionsMatch,
        conditionMatches, hv, hany]
    have := h _ "" "" _ _ hallowed (List.mem_singleton_self _) hc rfl t ht
    simpa [Condition.admits, eq_comm] using this
  · rintro hsame p toolsName toolName r c ⟨hallow, k, hk, hr⟩ hmem hc rfl s hs
    obtain ⟨-, st, hpassed⟩ := condition_of_matchedRule hk hr hmem
    simp only [conditionMatches, hv] at hpassed
    obtain ⟨t, ht, hadmits⟩ := (anyValueMatches_iff hc _).mp hpassed
    exact hsame t ht s hs ▸ hadmits

/-- Everything under `/repo` may be read. -/
def repoPolicy : Policy :=
  ⟨some .deny, [⟨"fs", "read", [⟨"paths", .glob, "/repo/**"⟩], .allow, 0, none⟩], none⟩

/-- A call with a list of files. -/
def filesCall (files : List String) : Args := ⟨[("paths", .strs files)], List.pairwise_singleton _ _⟩

/-- A file outside is read along with one inside. -/
theorem outside_file_allowed :
    (evaluate plainHost .posix repoPolicy "fs" "read" (filesCall ["/repo/a", "/etc/shadow"])).action =
        .allow ∧
      Condition.admits plainHost ⟨"paths", .glob, "/repo/**"⟩ "/etc/shadow" = false := by
  decide +kernel

theorem allow_covers_elements_iff_twice :
    Condition.admits plainHost ⟨"paths", .glob, "/repo/**"⟩ "/repo/a" = true :=
  (allow_covers_elements_iff plainHost .posix (filesCall ["/repo/a", "/repo/a"]) "paths" _ rfl).mpr
    (by simp [conditionValues]) repoPolicy "fs" "read" _ _ ⟨rfl, 0, by decide +kernel, rfl⟩
    (List.mem_singleton_self _) (.inr (.inl rfl)) rfl "/repo/a" (by simp [conditionValues])

end Contenox.Hitl
