/-
# Chains

A chain is a list of tasks, and each task says where the run goes after it: over a branch that
its transition value picks, or, when it fails, over its `on_failure` edge.  `validateChain` is
run before anything else; what it is for is that every edge of an accepted chain leads to a task
(`findTaskByID_of_goto`, `findTaskByID_of_onFailure`).
-/
import Contenox.Engine.ToolCalls

namespace Contenox.Engine

open Lib

/-! ## 1. Tasks -/

inductive TaskHandler
  | raiseError
  | route
  | chatCompletion
  | executeToolCalls
  | noop
  | tools
  | unknown (name : String)
  deriving DecidableEq, Repr

def TaskHandler.text : TaskHandler → String
  | .raiseError => "raise_error"
  | .route => "route"
  | .chatCompletion => "chat_completion"
  | .executeToolCalls => "execute_tool_calls"
  | .noop => "noop"
  | .tools => "tools"
  | .unknown name => name

inductive OperatorTerm
  | equals
  | contains
  | startsWith
  | endsWith
  | default
  | edgeTraversedAtLeast
  | unsupported (name : String)
  deriving DecidableEq, Repr

structure TransitionBranch where
  operator : OperatorTerm
  when : String
  goto : String
  edge : String
  deriving DecidableEq, Repr

structure TaskTransition where
  onFailure : String
  branches : List TransitionBranch
  deriving DecidableEq, Repr

/-- The tools block of a task. -/
structure ToolsBlock where
  name : String
  toolName : String
  args : List (String × String)
  deriving DecidableEq, Repr

/-- `TaskDefinition`.  `retryOnFailure` is the Go int, which may be negative. -/
structure TaskDefinition where
  id : String
  handler : TaskHandler
  systemInstruction : String
  promptTemplate : String
  outputTemplate : String
  print : String
  inputVar : String
  inputMaxBytes : Int
  timeout : String
  retryOnFailure : Int
  config : Option ExecuteConfig
  policies : List (String × List (String × String))
  tools : Option ToolsBlock
  transition : TaskTransition
  deriving DecidableEq, Repr

/-- `max(RetryOnFailure, 0)`. -/
def TaskDefinition.maxRetries (t : TaskDefinition) : Nat := t.retryOnFailure.toNat

def termEnd : String := "end"

def findTaskByID (tasks : List TaskDefinition) (id : String) : Option TaskDefinition :=
  tasks.find? fun t => t.id = id

variable {tasks : List TaskDefinition} {id : String}

theorem findTaskByID_mem {t : TaskDefinition} (h : findTaskByID tasks id = some t) :
    t ∈ tasks ∧ t.id = id :=
  ⟨List.mem_of_find?_eq_some h, by simpa using List.find?_some h⟩

theorem exists_findTaskByID (h : id ∈ tasks.map (·.id)) : ∃ t, findTaskByID tasks id = some t := by
  obtain ⟨t, ht, rfl⟩ := List.mem_map.mp h
  rw [← Option.isSome_iff_exists, findTaskByID, List.find?_isSome]
  exact ⟨t, ht, by simp⟩

/-! ## 2. Transitions -/

/-- `edgeCounts[edge]`: an edge not traversed counts zero. -/
def countOf (edgeCounts : List (String × Nat)) (edge : String) : Nat :=
  (edgeCounts.lookup edge).getD 0

/-- `edgeCounts[edge]++`. -/
def countEdge (edgeCounts : List (String × Nat)) (edge : String) : List (String × Nat) :=
  (edge, countOf edgeCounts edge + 1) :: edgeCounts.filter fun p => p.1 ≠ edge

/-- `compare`; an operator it does not know is an error, which its caller takes for no match. -/
def compare (operator : OperatorTerm) (response pat : String) : Bool :=
  match operator with
  | .equals => response = pat
  | .contains => GoStrings.contains response pat
  | .startsWith => GoStrings.hasPrefix response pat
  | .endsWith => GoStrings.hasSuffix response pat
  | _ => false

/-- Whether a branch that is not the default one fires.  A threshold that is no number is no
match. -/
def branchFires (eval : String) (edgeCounts : List (String × Nat)) (b : TransitionBranch) : Bool :=
  match b.operator with
  | .default => false
  | .edgeTraversedAtLeast =>
    match GoStrings.atoi (GoStrings.trimSpace b.when) with
    | none => false
    | some threshold => decide (threshold ≤ (countOf edgeCounts b.edge : Int))
  | op => compare op eval b.when

/-- `evaluateTransitions`: the next task's id, empty for a leaf. -/
def evaluateTransitions (transition : TaskTransition) (eval : String)
    (edgeCounts : List (String × Nat)) : Except String String :=
  if transition.branches = [] then .ok ""
  else
    match transition.branches.find? (branchFires eval edgeCounts) with
    | some b => .ok b.goto
    | none =>
      match transition.branches.find? fun b => b.operator = .default with
      | some b => .ok b.goto
      | none => .error ("no matching transition found for eval: " ++ eval)

variable {eval next : String} {edgeCounts : List (String × Nat)}

theorem evaluateTransitions_goto {transition : TaskTransition}
    (h : evaluateTransitions transition eval edgeCounts = .ok next) :
    next = "" ∨ ∃ b ∈ transition.branches, b.goto = next := by
  unfold evaluateTransitions at h
  split at h
  · cases h
    exact .inl rfl
  split at h
  · next b hb =>
    cases h
    exact .inr ⟨b, List.mem_of_find?_eq_some hb, rfl⟩
  · split at h
    · next b hb =>
      cases h
      exact .inr ⟨b, List.mem_of_find?_eq_some hb, rfl⟩
    · cases h

/-! ## 3. What is accepted -/

/-- `strings.SplitN(edge, "->", 2)` where the separator occurs. -/
def splitEdgeFrom (seen : List Char) : List Char → Option (String × String)
  | '-' :: '>' :: rest => some (String.ofList seen.reverse, String.ofList rest)
  | c :: rest => splitEdgeFrom (c :: seen) rest
  | [] => none

def splitEdge (edge : String) : Option (String × String) := splitEdgeFrom [] edge.toList

/-- What `validateChain` is given: `%q` and the text of the error it wraps. -/
structure Checks where
  quote : String → String
  badRequest : String

section Validate

variable (ck : Checks)

/-- The first error of a list of checks. -/
def firstError {β : Type} (check : β → Option String) : List β → Option String
  | [] => none
  | x :: rest => (check x).or (firstError check rest)

/-- The ids are not empty, not the end mark, and distinct; `seen` holds those before. -/
def checkIDs : List String → List TaskDefinition → Option String
  | _, [] => none
  | seen, t :: rest =>
    if t.id = "" then some ("task ID cannot be empty " ++ ck.badRequest)
    else if t.id = termEnd then
      some ("task ID cannot be '" ++ termEnd ++ "' " ++ ck.badRequest)
    else if t.id ∈ seen then
      some ("duplicate task ID " ++ ck.quote t.id ++ " " ++ ck.badRequest)
    else checkIDs (t.id :: seen) rest

/-- The edge a branch counts. -/
def checkEdge (ids : List String) (id : String) (b : TransitionBranch) : Option String :=
  let lead := "task " ++ ck.quote id ++ ": branch edge " ++ ck.quote b.edge
  if b.edge = "" then
    some ("task " ++ ck.quote id ++ ": branch with operator " ++
      ck.quote "edge_traversed_at_least" ++ " requires 'edge' field " ++ ck.badRequest)
  else
    match splitEdge b.edge with
    | none => some (lead ++ " must be of the form 'fromTaskID->toTaskID' " ++ ck.badRequest)
    | some (src, dst) =>
      if src = "" ∨ dst = "" then
        some (lead ++ " must be of the form 'fromTaskID->toTaskID' " ++ ck.badRequest)
      else if src ∉ ids then
        some (lead ++ " references unknown source task " ++ ck.quote src ++ " " ++ ck.badRequest)
      else if dst ∉ ids ∧ dst ≠ termEnd then
        some (lead ++ " references unknown target task " ++ ck.quote dst ++ " " ++ ck.badRequest)
      else if GoStrings.atoi (GoStrings.trimSpace b.when) = none then
        some ("task " ++ ck.quote id ++ ": branch with operator " ++
          ck.quote "edge_traversed_at_least" ++ " requires integer 'when' threshold, got " ++
          ck.quote b.when ++ " " ++ ck.badRequest)
      else none

def checkBranch (ids : List String) (id : String) (b : TransitionBranch) : Option String :=
  match b.operator with
  | .unsupported name =>
    some ("task " ++ ck.quote id ++ ": unsupported operator: " ++ name ++ " " ++ ck.badRequest)
  | op =>
    if b.goto ≠ "" ∧ b.goto ≠ termEnd ∧ b.goto ∉ ids then
      some ("task " ++ ck.quote id ++ ": branch goto references unknown task " ++
        ck.quote b.goto ++ " " ++ ck.badRequest)
    else if op = .edgeTraversedAtLeast then checkEdge ck ids id b
    else none

def checkTask (ids : List String) (t : TaskDefinition) : Option String :=
  match t.handler with
  | .unknown name =>
    some ("task " ++ ck.quote t.id ++ ": unknown handler " ++ ck.quote name ++ " " ++
      ck.badRequest)
  | handler =>
    if handler = .tools ∧ (t.tools.map (·.name)).getD "" = "" then
      some ("task " ++ ck.quote t.id ++ ": 'tools' handler requires a tools block with a name " ++
        ck.badRequest)
    else if t.transition.onFailure ≠ "" ∧ t.transition.onFailure ∉ ids then
      some ("task " ++ ck.quote t.id ++ ": on_failure references unknown task " ++
        ck.quote t.transition.onFailure ++ " " ++ ck.badRequest)
    else firstError (checkBranch ck ids t.id) t.transition.branches

/-- `validateChain`: its error, or none. -/
def validateChain (tasks : List TaskDefinition) : Option String :=
  if tasks = [] then some ("chain has no tasks " ++ ck.badRequest)
  else (checkIDs ck [] tasks).or (firstError (checkTask ck (tasks.map (·.id))) tasks)

variable {ck} {tasks : List TaskDefinition} {t : TaskDefinition} {ids : List String}

theorem firstError_eq_none {β : Type} {check : β → Option String} {l : List β} :
    firstError check l = none ↔ ∀ x ∈ l, check x = none := by
  induction l with
  | nil => simp [firstError]
  | cons x l ih => simp [firstError, Option.or_eq_none_iff, ih]

theorem checkTask_of_validateChain (h : validateChain ck tasks = none) (ht : t ∈ tasks) :
    checkTask ck (tasks.map (·.id)) t = none := by
  unfold validateChain at h
  split at h
  · cases h
  · rw [Option.or_eq_none_iff] at h
    exact firstError_eq_none.mp h.2 t ht

theorem checkTask_eq_none (h : checkTask ck ids t = none) :
    (t.transition.onFailure ≠ "" → t.transition.onFailure ∈ ids) ∧
      ∀ b ∈ t.transition.branches, checkBranch ck ids t.id b = none := by
  unfold checkTask at h
  iterate 3
    split at h
    · cases h
  next hfail =>
  refine ⟨fun hne => ?_, firstError_eq_none.mp h⟩
  by_contra hmem
  exact hfail ⟨hne, hmem⟩

theorem checkBranch_goto {b : TransitionBranch} (h : checkBranch ck ids id b = none) :
    b.goto = "" ∨ b.goto = termEnd ∨ b.goto ∈ ids := by
  unfold checkBranch at h
  split at h
  · cases h
  split at h
  · cases h
  next hgoto =>
  by_contra hall
  rw [not_or, not_or] at hall
  exact hgoto hall

/-- In an accepted chain the failure edge leads to a task. -/
theorem findTaskByID_of_onFailure (h : validateChain ck tasks = none) (ht : t ∈ tasks)
    (hne : t.transition.onFailure ≠ "") :
    ∃ t', findTaskByID tasks t.transition.onFailure = some t' :=
  exists_findTaskByID ((checkTask_eq_none (checkTask_of_validateChain h ht)).1 hne)

/-- In an accepted chain a transition leads to a task or ends the run. -/
theorem findTaskByID_of_goto (h : validateChain ck tasks = none) (ht : t ∈ tasks)
    (hnext : evaluateTransitions t.transition eval edgeCounts = .ok next) :
    next = "" ∨ next = termEnd ∨ ∃ t', findTaskByID tasks next = some t' := by
  rcases evaluateTransitions_goto hnext with rfl | ⟨b, hb, rfl⟩
  · exact .inl rfl
  have hbranch := (checkTask_eq_none (checkTask_of_validateChain h ht)).2 b hb
  rcases checkBranch_goto hbranch with he | he | hmem
  · exact .inl he
  · exact .inr (.inl he)
  · exact .inr (.inr (exists_findTaskByID hmem))

end Validate

end Contenox.Engine
