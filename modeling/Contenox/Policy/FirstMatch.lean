/-
# The first rule that matches

The notes an evaluation takes do not decide it: whether a rule matches is the same whatever was
noted before it (`ruleMatches_fst`).  So the action of an evaluation is that of the first matching
rule of the list, or the default, and a policy can be argued about group by group, by where its
groups stand (`evaluate_action`).
-/
import Contenox.Policy.Withheld

namespace Contenox.Hitl

open Lib Shell

variable {scope : EvalScope} {toolsName toolName : String} {r : Rule}

/-- The rule matches the call. -/
def Rule.hits (scope : EvalScope) (toolsName toolName : String) (r : Rule) : Bool :=
  (ruleMatches scope r toolsName toolName ⟨"", MatchNote.zero⟩).1

theorem hits_of_not_covers (h : r.covers toolsName toolName = false) :
    r.hits scope toolsName toolName = false := by
  unfold Rule.hits ruleMatches
  rw [h]
  rfl

/-- A rule that does not allow hits with the trust block as it does without. -/
theorem hits_bare (hne : r.action ≠ .allow) :
    r.hits scope toolsName toolName = r.hits scope.bare toolsName toolName :=
  ruleMatches_bare hne toolsName toolName _

theorem evaluateFrom_action (defaultAction : Option Action) (i : Nat) (rules : List Rule)
    (trustNote : String) :
    (evaluateFrom scope defaultAction toolsName toolName i rules trustNote).action =
      ((rules.find? (·.hits scope toolsName toolName)).map Rule.action).getD
        (defaultAction.getD .approve) := by
  induction rules generalizing i trustNote with
  | nil => rfl
  | cons r rules ih =>
    have hfst := ruleMatches_fst scope r toolsName toolName ⟨trustNote, MatchNote.zero⟩
      ⟨"", MatchNote.zero⟩
    rw [evaluateFrom, List.find?_cons]
    dsimp only
    cases hhit : r.hits scope toolsName toolName with
    | true =>
      rw [if_pos (hfst.trans hhit)]
      rfl
    | false =>
      rw [if_neg (by rw [hfst.trans hhit]; exact Bool.false_ne_true)]
      exact ih _ _

/-- An evaluation comes to the action of the first rule that matches. -/
theorem evaluate_action (host : Host) (kind : Kind) (p : Policy) (toolsName toolName : String)
    (args : Args) :
    (evaluate host kind p toolsName toolName args).action =
      ((p.rules.find? (·.hits ⟨host, kind, args, p.trustedBinaries⟩ toolsName toolName)).map
        Rule.action).getD (p.defaultAction.getD .approve) :=
  evaluateFrom_action ..

/-- Rules that do not match can be left out of the search. -/
theorem find?_skip {pre rest : List Rule} (h : ∀ r ∈ pre, r.hits scope toolsName toolName = false) :
    (pre ++ rest).find? (·.hits scope toolsName toolName) =
      rest.find? (·.hits scope toolsName toolName) := by
  rw [List.find?_append, List.find?_eq_none.mpr fun r hr => by simp [h r hr], Option.none_or]

end Contenox.Hitl
