/-
# The approval policy document

`hitlservice/policy.go` loads a policy from JSON, validates it once, and evaluates every tool
call against it.  This file holds the document (rules, conditions, the trusted-binaries
block) and the part of `validatePolicy` that later arguments rest on: a rule that loads has
a wait that makes sense, and NEVER resolves an unanswered ask to "allow".

`Action` and `ConditionOp` are strings in the source.  `validatePolicy` refuses every action that
is not one of the constants, so actions are an enumeration here.  An operator of another name
matches nothing; it is refused on loading too, but a document may be written with one.  The empty
string in `on_timeout` and `default_action` means "not stated" and is `none`.
-/
import Mathlib.Data.List.Basic

namespace Contenox.Hitl

/-- The outcome of evaluating a tool call. -/
inductive Action
  | allow
  | approve
  | deny
  deriving DecidableEq, Repr

/-- How an action is spelled in the document. -/
def Action.text : Action → String
  | .allow => "allow"
  | .approve => "approve"
  | .deny => "deny"

/-- The comparison operator of a condition. -/
inductive ConditionOp
  | eq
  | glob
  | host
  | commandBlacklist
  | commandAskAlways
  | noCommandSubstitution
  | commandPrefixAllowlist
  | unknown (name : String)
  deriving DecidableEq, Repr

/-- How an operator is spelled in the document. -/
def ConditionOp.text : ConditionOp → String
  | .eq => "eq"
  | .glob => "glob"
  | .host => "host"
  | .commandBlacklist => "command_blacklist"
  | .commandAskAlways => "command_ask_always"
  | .noCommandSubstitution => "no_command_substitution"
  | .commandPrefixAllowlist => "command_prefix_allowlist"
  | .unknown name => name

/-- One key/op/value predicate on the arguments of a call. -/
structure Condition where
  key : String
  op : ConditionOp
  value : String
  deriving DecidableEq, Repr

/-- A rule: which tools it is about, the conditions that must all hold, and the action. -/
structure Rule where
  tools : String
  tool : String
  when : List Condition
  action : Action
  timeoutS : Int
  onTimeout : Option Action
  deriving DecidableEq, Repr

/-- The identity and integrity block.  `hashes` is a Go map: the first entry of a key is
the one that counts. -/
structure TrustedBinaries where
  dirs : List String
  hashes : List (String × String)
  deriving DecidableEq, Repr

/-- The document.  The `compute` and `attention` blocks take no part in evaluating a call. -/
structure Policy where
  defaultAction : Option Action
  rules : List Rule
  trustedBinaries : Option TrustedBinaries
  deriving DecidableEq, Repr

/-- `TimeoutIndefinite`: the wait with no deadline. -/
def timeoutIndefinite : Int := -1

/-- The checks `validatePolicy` makes on one rule.  Unknown actions cannot be written in this
model; the glob check is a separate function of the source, and `quote` is `%q`. -/
def validateRule (quote : String → String) (validateGlobValue : String → Option String) (i : Nat)
    (r : Rule) : Option String :=
  if r.onTimeout = some .allow then
    some s!"rule {i}: on_timeout=\"allow\" is not permitted (would silently bypass approval)"
  else if r.timeoutS < timeoutIndefinite then
    some (s!"rule {i}: timeout_s {r.timeoutS} is not a wait; write a positive number of " ++
      s!"seconds, {timeoutIndefinite} for an ask that waits until it is answered, or zero " ++
      "to leave the ask on the operator's approval ceiling")
  else if r.timeoutS = timeoutIndefinite ∧ r.onTimeout ≠ none then
    some (s!"rule {i}: on_timeout=\"" ++ (r.onTimeout.map Action.text).getD "" ++
      s!"\" cannot apply to timeout_s={timeoutIndefinite} — an ask with no deadline never " ++
      "expires, so nothing would ever read it")
  else
    r.when.zipIdx.findSome? fun (c, j) =>
      match c.op with
      | .glob => (validateGlobValue c.value).map fun e => s!"rule {i}, condition {j}: " ++ e
      | .unknown name => some (s!"rule {i}, condition {j}: unknown op " ++ quote name)
      | _ => none

/-- The rule loop of `validatePolicy`: the first complaint, in rule order. -/
def validateRules (quote : String → String) (validateGlobValue : String → Option String)
    (p : Policy) : Option String :=
  p.rules.zipIdx.findSome? fun (r, i) => validateRule quote validateGlobValue i r

/-- **No rule that loads lets an unanswered ask through.** -/
theorem onTimeout_ne_allow_of_validateRules {q : String → String} {g : String → Option String}
    {p : Policy} (h : validateRules q g p = none) {r : Rule} (hr : r ∈ p.rules) :
    r.onTimeout ≠ some .allow := by
  intro ha
  obtain ⟨i, hi⟩ : ∃ i, (r, i) ∈ p.rules.zipIdx := by
    obtain ⟨i, hlt, rfl⟩ := List.getElem_of_mem hr
    exact ⟨i, by simp [List.mem_zipIdx_iff_getElem?]⟩
  have hnone := (List.findSome?_eq_none_iff.mp h) (r, i) hi
  simp [validateRule, ha] at hnone

end Contenox.Hitl
