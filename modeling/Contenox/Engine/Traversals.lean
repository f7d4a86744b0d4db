/-
# What the edge counters count

The interpreter keeps one counter per edge, under the text `from->to`, and a branch or a macro
reads a counter by that text.  A run is given by the tasks it entered, in order (`History`), and a
traversal of an edge is two entries that follow each other (`traversals`); suspensions and
resumptions enter nothing.

The text names the edge as long as no task id has an arrow of its own: the first arrow is then the
one between the ids (`splitEdge_name`).  `validateChain` lets such ids pass, and two edges can share
a counter (`edges_share_a_counter`).
-/
import Contenox.AgentDecl.LoopBounds

namespace Contenox.Engine

open Lib AgentDecl

/-! ## 1. Edges by name -/

theorem splitEdgeFrom_name (rest : List Char) :
    ∀ seen l, splitEdgeFrom seen l = none →
      splitEdgeFrom seen (l ++ '-' :: '>' :: rest) =
        some (String.ofList (seen.reverse ++ l), String.ofList rest) := by
  intro seen l h
  induction l generalizing seen with
  | nil => simp [splitEdgeFrom]
  | cons c l ih =>
    by_cases hdash : c = '-'
    · subst hdash
      cases l with
      | nil => simp [splitEdgeFrom]
      | cons d l =>
        by_cases hd : d = '>'
        · subst hd
          simp [splitEdgeFrom] at h
        · -- the dash starts no arrow, before the name is completed and after
          have hstep : ∀ m, splitEdgeFrom seen ('-' :: d :: m) = splitEdgeFrom ('-' :: seen) (d :: m) :=
            fun m => by rw [splitEdgeFrom]; simp [hd]
          rw [hstep] at h
          rw [List.cons_append, List.cons_append, hstep, ← List.cons_append, ih _ h]
          simp
    · have hstep : ∀ m, splitEdgeFrom seen (c :: m) = splitEdgeFrom (c :: seen) m :=
        fun m => by rw [splitEdgeFrom]; simp [hdash]
      rw [hstep] at h
      rw [List.cons_append, hstep, ih _ h]
      simp

/-- The name of an edge out of a task whose id has no arrow tells its two ends. -/
theorem splitEdge_name {a : String} (h : splitEdge a = none) (b : String) :
    splitEdge (a ++ "->" ++ b) = some (a, b) := by
  have hname := splitEdgeFrom_name b.toList [] a.toList h
  unfold splitEdge
  simpa using hname

theorem name_inj {a a' b b' : String} (ha : splitEdge a = none) (ha' : splitEdge a' = none) :
    a ++ "->" ++ b = a' ++ "->" ++ b' ↔ a = a' ∧ b = b' := by
  constructor
  · intro h
    have hsplit := splitEdge_name ha b
    rw [h, splitEdge_name ha' b'] at hsplit
    cases hsplit
    exact ⟨rfl, rfl⟩
  · rintro ⟨rfl, rfl⟩
    rfl

/-! ## 2. Traversals -/

/-- How often a run that entered these tasks went from `a` to `b`. -/
def traversals (a b : String) : List String → Nat
  | x :: y :: rest => (if a = x ∧ b = y then 1 else 0) + traversals a b (y :: rest)
  | _ => 0

theorem traversals_append {a b x : String} {visits : List String}
    (h : visits.getLast? = some x) (y : String) :
    traversals a b (visits ++ [y]) = traversals a b visits + if a = x ∧ b = y then 1 else 0 := by
  induction visits with
  | nil => cases h
  | cons v visits ih =>
    cases visits with
    | nil =>
      obtain rfl : v = x := by simpa using h
      simp [traversals]
    | cons u visits =>
      have := ih (by simpa using h)
      simp only [List.cons_append, traversals] at this ⊢
      omega

/-- What `expandStepMacros` puts in the place of an `edge_count` macro, given the text between its
colon and its closing braces. -/
def edgeCountMacro (edgeCounts : List (String × Nat)) (edge : String) : String :=
  toString (countOf edgeCounts (GoStrings.trimSpace edge))

/-! ## 3. Steps -/

/-- A step that goes on stays at its task and counts nothing, or enters a task and counts the edge
to it. -/
theorem Onward.entered {tasks : List TaskDefinition} {counts counts' : List (String × Nat)}
    {p p' : Phase} (h : Onward tasks counts p p' counts') :
    (p'.task = p.task ∧ entered p' = [] ∧ counts' = counts) ∨
      (p'.task ∈ tasks ∧ entered p' = [p'.task.id] ∧
        counts' = countEdge counts (p.task.id ++ "->" ++ p'.task.id)) := by
  cases h with
  | attempt t via input | retry t input hlt => exact .inl ⟨rfl, rfl, rfl⟩
  | failed input n hfind hstated | done input n heval hend hfind =>
    obtain ⟨hmem, hid⟩ := findTaskByID_mem hfind
    exact .inr ⟨hmem, rfl, by rw [← hid]; rfl⟩

section Runs

variable {W : Type} {out : EnvOutside W} {codec : Codec} {reg : W → Registry}
  {exec : W → TaskCall → W × TaskResult} {tasks : List TaskDefinition} {input : Typed}
  {c : RunConfig} {r : Run W} {visits : List String} {n : Nat} {waits : List Nat}

/-- The run stands at the task it entered last, no task it can be at has an arrow in its id, and
the counters of the edges are the traversals. -/
structure Counted (c : RunConfig) (r : Run W) (visits : List String) : Prop where
  plain : ∀ t ∈ c.tasks, splitEdge t.id = none
  here : splitEdge r.phase.task.id = none
  last : visits.getLast? = some r.phase.task.id
  counts : ∀ a b, splitEdge a = none →
    countOf r.mem.edgeCounts (a ++ "->" ++ b) = traversals a b visits

theorem Counted.step {r' : Run W} (h : Counted c r visits)
    (hstep : Engine.step out c exec r = .next r') : Counted c r' (visits ++ entered r'.phase) := by
  rcases (step_onward hstep).entered with ⟨htask, hin, hcounts⟩ | ⟨hmem, hin, hcounts⟩
  · rw [hin, List.append_nil]
    refine ⟨h.plain, ?_, ?_, ?_⟩
    · rw [htask]
      exact h.here
    · rw [htask]
      exact h.last
    · rw [hcounts]
      exact h.counts
  · rw [hin]
    refine ⟨h.plain, h.plain _ hmem, by simp, fun a b ha => ?_⟩
    rw [hcounts, countOf_countEdge, h.counts a b ha, traversals_append h.last]
    simp only [name_inj ha h.here]

theorem Counted.resumed {c' : RunConfig} {r' : Run W} {p : Parked W} {w : W}
    (h : Counted c r visits) (hpark : Engine.step out c exec r = .parked p)
    (hresume : suspendAndResume out codec reg c p w = .ok (c', r')) : Counted c' r' visits := by
  obtain ⟨hmem, hphase⟩ := step_parked hpark
  unfold suspendAndResume at hresume
  split at hresume
  · cases hresume
  next cp hcp =>
  obtain ⟨-, htasks, hid, hcounts⟩ := through_ok hcp
  obtain ⟨-, task, -, htask, -, rfl, rfl⟩ := resumeRun_ok hresume
  -- the task found again has the id of the one that was left
  have hname : task.id = r.phase.task.id := by
    rw [(findTaskByID_mem htask).2, hid, hphase]
    rfl
  refine ⟨?_, ?_, ?_, ?_⟩
  · intro t ht
    rw [htasks] at ht
    obtain ⟨t₀, ht₀, rfl⟩ := List.mem_map.mp ht
    exact h.plain t₀ ht₀
  · change splitEdge task.id = none
    rw [hname]
    exact h.here
  · change _ = some task.id
    rw [hname]
    exact h.last
  · intro a b ha
    rw [hcounts]
    change countOf p.mem.edgeCounts _ = _
    rw [hmem]
    exact h.counts a b ha

theorem history_counted (hids : ∀ t ∈ tasks, splitEdge t.id = none)
    (h : History out codec reg exec tasks input c r visits n waits) : Counted c r visits := by
  induction h with
  | @start reg₀ c₀ c w r htasks h =>
    obtain ⟨-, first, rest, acc, hfirst, -, rfl, rfl⟩ := startRun_ok h
    have hplain : ∀ t ∈ c₀.tasks, splitEdge t.id = none := htasks ▸ hids
    exact ⟨hplain, hplain first (by rw [hfirst]; exact List.mem_cons_self), rfl, fun a b _ => rfl⟩
  | step hr hstep ih => exact ih.step hstep
  | resume hr hpark hresume ih => exact ih.resumed hpark hresume

/-- **An edge counter counts the traversals of its edge**, over normal and failure transitions and
through any number of resumptions, in every run of a chain whose task ids have no arrow in them: a
macro shows their number, and a branch bounded by `n` fires from the `n`-th traversal on. -/
theorem edge_counter_counts_traversals (hids : ∀ t ∈ tasks, splitEdge t.id = none)
    (h : History out codec reg exec tasks input c r visits n waits) {a : TaskDefinition}
    (ha : a ∈ tasks) (b : String) :
    countOf r.mem.edgeCounts (a.id ++ "->" ++ b) = traversals a.id b visits ∧
    (GoStrings.trimSpace (a.id ++ "->" ++ b) = a.id ++ "->" ++ b →
      edgeCountMacro r.mem.edgeCounts (a.id ++ "->" ++ b) =
        toString (traversals a.id b visits)) ∧
    ∀ (eval : String) (branch : TransitionBranch) (bound : Int),
      branch.operator = .edgeTraversedAtLeast → branch.edge = a.id ++ "->" ++ b →
      GoStrings.atoi (GoStrings.trimSpace branch.when) = some bound →
      (branchFires eval r.mem.edgeCounts branch = true ↔
        bound ≤ traversals a.id b visits) := by
  have hcount := (history_counted hids h).counts a.id b (hids a ha)
  refine ⟨hcount, ?_, ?_⟩
  · intro htrim
    unfold edgeCountMacro
    rw [htrim, hcount]
  · intro eval branch bound hop hedge hwhen
    unfold branchFires
    simp only [hop, hwhen, hedge, hcount, decide_eq_true_eq]

end Runs

/-! ## 4. Two edges of one name -/

/-- A task that goes on to `goto`, and to `handler` when it fails. -/
def relay (id goto handler : String) : TaskDefinition :=
  plainTask id .noop ⟨handler, [⟨.default, "", goto, ""⟩]⟩

def relays (tasks : List TaskDefinition) : RunConfig := ⟨"relays", tasks, 0, 4096, 0, .detached, []⟩

/-- Four tasks in a row; the first edge and the last are both named `a->b->c`. -/
def arrows : List TaskDefinition :=
  [relay "a" "b->c" "", relay "b->c" "a->b" "", relay "a->b" "c" "", relay "c" "end" ""]

/-- The run goes from `a` to `b->c` once, and the counter of that edge is at two when it is over
the edge from `a->b` to `c`. -/
theorem edges_share_a_counter : ∃ c r,
    validateChain (plainEnv (W := Nat)).checks arrows = none ∧
    History plainEnv plainCodec (fun _ => plainRegistry) (scripted []) arrows transcript c r
      ["a", "b->c", "a->b", "c"] 6 [0, 0, 0, 0] ∧
    traversals "a" "b->c" ["a", "b->c", "a->b", "c"] = 1 ∧
    countOf r.mem.edgeCounts ("a" ++ "->" ++ "b->c") = 2 := by
  have h₀ := @History.start Nat plainEnv plainCodec (fun _ => plainRegistry) (scripted [])
    arrows transcript plainRegistry (relays arrows) _ 0 _ rfl (by rfl)
  have h₁ := h₀.step (by rfl)
  have h₂ := h₁.step (by rfl)
  have h₃ := h₂.step (by rfl)
  have h₄ := h₃.step (by rfl)
  have h₅ := h₄.step (by rfl)
  have h₆ := h₅.step (by rfl)
  exact ⟨_, _, by decide, h₆, by decide, by decide⟩

/-- Two tasks, the second of which goes back to the first when it fails. -/
def pingPong : List TaskDefinition := [relay "ping" "pong" "", relay "pong" "end" "ping"]

/-- The second task waits for an approval, is resumed and fails. -/
def pingPongScript : Nat → TaskCall → Nat × TaskResult :=
  scripted [.ok transcript "", .pending transcript "a-1" "waits", .failed transcript "down"]

theorem edge_counter_counts_traversals_pingPong : ∃ c r,
    History plainEnv plainCodec (fun _ => plainRegistry) pingPongScript pingPong transcript c r
      ["ping", "pong", "ping"] 4 [0, 1, 0] ∧
    countOf r.mem.edgeCounts ("pong" ++ "->" ++ "ping") = 1 := by
  have h₀ := @History.start Nat plainEnv plainCodec (fun _ => plainRegistry) pingPongScript
    pingPong transcript plainRegistry (relays pingPong) _ 0 _ rfl (by rfl)
  have h₁ := h₀.step (by rfl)
  have h₂ := h₁.step (by rfl)
  have h₃ := h₂.step (by rfl)
  have h₄ := h₃.resume (w := 2) (by rfl) (by rfl)
  have h₅ := h₄.step (by rfl)
  have hcount := edge_counter_counts_traversals (by decide) h₅ (a := relay "pong" "end" "ping")
    (by decide) "ping"
  exact ⟨_, _, h₅, hcount.1.trans (by decide)⟩

end Contenox.Engine
