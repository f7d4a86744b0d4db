/-
# The loops of an emitted chain come to an end

The graph of the five tasks is cyclic, twice.  What ends a run is not the graph but the counters
of the interpreter: an edge to tool calls is taken only while its counter is below the rounds of
the configuration, and counters never go down, not over a failure edge and not over a checkpoint.

So the argument is about a STAGE and the counters (`Edge`).  A rank of both drops with every edge,
whichever it is, and the attempts of one visit are bounded by the retries; together they bound the
steps.  What a resumption starts afresh is the attempts of the visit it re-enters and nothing else,
so each of them adds at most one more round of attempts.
-/
import Contenox.AgentDecl.Loop
import Contenox.Engine.LintSound

namespace Contenox

open Lib

/-! ## 1. How a run goes on -/

namespace Engine

/-- What a step that goes on does with the phase and the counters. -/
inductive Onward (tasks : List TaskDefinition) (counts : List (String × Nat)) :
    Phase → Phase → List (String × Nat) → Prop
  | attempt (t : TaskDefinition) (via : Bool) (input : Typed) :
      Onward tasks counts (.entering t via) (.attempting t input 0) counts
  | retry (t : TaskDefinition) (input : Typed) {n : Nat}
      (h : n < t.maxRetries) :
      Onward tasks counts (.attempting t input n) (.attempting t input (n + 1))
        counts
  | failed {t t' : TaskDefinition} (input : Typed) (n : Nat)
      (h : findTaskByID tasks t.transition.onFailure = some t')
      (hstated : t.transition.onFailure ≠ "") :
      Onward tasks counts (.attempting t input n) (.entering t' true)
        (countEdge counts (t.id ++ "->" ++ t.transition.onFailure))
  | done {t t' : TaskDefinition} {eval next : String} (input : Typed) (n : Nat)
      (heval : evaluateTransitions t.transition eval counts = .ok next)
      (hend : next ≠ termEnd) (h : findTaskByID tasks next = some t') :
      Onward tasks counts (.attempting t input n) (.entering t' false)
        (countEdge counts (t.id ++ "->" ++ next))

section Steps

variable {out : EnvOutside W} {exec : W → TaskCall → W × TaskResult}

/-- A step that goes on, whatever the task returned. -/
theorem step_onward {r' : Run W} (h : step out c exec r = .next r') :
    Onward c.tasks r.mem.edgeCounts r.phase r'.phase r'.mem.edgeCounts := by
  have hspec := step_spec out c exec r
  rw [h] at hspec
  cases hspec with
  | enters => exact .attempt _ _ _
  | attempts made follows =>
    cases follows with
    | goesOn goto named going target => exact .done _ _ goto going target
    | retries left => exact .retry _ _ left
    | failsOver edge target => exact .failed _ _ target edge

/-- A run waits at the task it attempts, with the variables it has. -/
theorem step_parked {p : Parked W} (h : step out c exec r = .parked p) :
    p.mem = r.mem ∧ r.phase = .attempting p.task p.input p.retry := by
  have hspec := step_spec out c exec r
  rw [h] at hspec
  cases hspec with
  | attempts made follows =>
    cases follows with
    | waits => exact ⟨rfl, rfl⟩

end Steps

end Engine

namespace AgentDecl

open Engine
open Lib.GoStrings (atoi atoi_toString trimSpace trimSpace_toString)

/-! ## 2. Stages -/

inductive Stage
  | agent
  | tools
  | recovery
  | recoveryTools
  | summarise
  deriving DecidableEq, Repr

namespace Stage

variable {W : Type} {c : RunConfig} {r : Run W} {counts : List (String × Nat)} {d : Declaration}

def suffix : Stage → String
  | agent => "-agent"
  | tools => "-tools"
  | recovery => "-recovery"
  | recoveryTools => "-recovery-tools"
  | summarise => "-summarise"

def taskID (id : String) (s : Stage) : String := id ++ s.suffix

theorem taskID_injective (id : String) : Function.Injective (taskID id) := by
  intro s s' h
  have hsuffix : s.suffix = s'.suffix := by simpa [taskID] using h
  cases s <;> cases s' <;> first | rfl | exact absurd hsuffix (by decide)

/-- The main stage: the turn and its tool calls. -/
def isMain : Stage → Bool
  | agent | tools => true
  | recovery | recoveryTools | summarise => false

end Stage

section Chain

variable (cfg : LoopConfig) (id : String)

def Stage.transition : Stage → TaskTransition
  | .agent => turnTransition (id ++ "-agent") (id ++ "-tools") (id ++ "-recovery")
      cfg.chain.mainRounds
  | .tools => alwaysTo (id ++ "-agent")
  | .recovery => turnTransition (id ++ "-recovery") (id ++ "-recovery-tools") (id ++ "-summarise")
      cfg.chain.recoveryRounds
  | .recoveryTools => alwaysTo (id ++ "-recovery")
  | .summarise => alwaysTo termEnd

/-- The task is the stage's, as far as routing reads it. -/
structure At (s : Stage) (t : TaskDefinition) : Prop where
  named : t.id = s.taskID id
  transition : t.transition = s.transition cfg id
  retries : t.maxRetries ≤ cfg.retryOnFailure.toNat
  silent : t.print = ""
  untimed : t.timeout = ""

/-- The edge from one stage to another, as the counters name it. -/
def edgeName (s s' : Stage) : String := s.taskID id ++ "->" ++ s'.taskID id

/-- The rounds a counter has used up. -/
def used (counts : List (String × Nat)) : Nat := countOf counts (edgeName id .agent .tools)

def recoveryUsed (counts : List (String × Nat)) : Nat :=
  countOf counts (edgeName id .recovery .recoveryTools)

/-- The edges a run can take, given the counters. -/
inductive Edge (counts : List (String × Nat)) : Stage → Stage → Prop
  | call (h : used id counts < cfg.chain.mainRounds.toNat) : Edge counts .agent .tools
  | result : Edge counts .tools .agent
  | recover : Edge counts .agent .recovery
  | recoveryCall (h : recoveryUsed id counts < cfg.chain.recoveryRounds.toNat) :
      Edge counts .recovery .recoveryTools
  | recoveryResult : Edge counts .recoveryTools .recovery
  | giveUp : Edge counts .recovery .summarise

end Chain

section Routes

variable {eval next : String}

variable {rounds : Int}

theorem branchFires_spent (hrounds : 0 ≤ rounds) (hfits : rounds < 2 ^ 63) (goto edge : String) :
    branchFires eval counts ⟨.edgeTraversedAtLeast, toString rounds, goto, edge⟩ =
      decide (rounds ≤ (countOf counts edge : Int)) := by
  have hread : atoi (trimSpace (toString rounds)) = some rounds := by
    obtain ⟨k, rfl⟩ := Int.eq_ofNat_of_zero_le hrounds
    rw [show toString (k : Int) = toString k from rfl, trimSpace_toString]
    exact atoi_toString (by omega)
  unfold branchFires
  rw [hread]

/-- Where a turn goes on: the counter is looked at before what the turn returned. -/
theorem turnTransition_eq {turn tools exhausted : String} (hrounds : 0 ≤ rounds)
    (hfits : rounds < 2 ^ 63) :
    evaluateTransitions (turnTransition turn tools exhausted rounds) eval counts =
      .ok (if rounds ≤ countOf counts (turn ++ "->" ++ tools) then exhausted
        else if eval = "tool_call" then tools else termEnd) := by
  unfold evaluateTransitions turnTransition
  rw [if_neg (by simp), List.find?_cons, branchFires_spent hrounds hfits]
  by_cases hspent : rounds ≤ (countOf counts (turn ++ "->" ++ tools) : Int)
  · rw [decide_eq_true hspent, if_pos hspent]
  rw [decide_eq_false hspent, if_neg hspent, List.find?_cons]
  have hcall : branchFires eval counts ⟨.equals, "tool_call", tools, ""⟩ =
    decide (eval = "tool_call") := rfl
  rw [hcall]
  by_cases heval : eval = "tool_call"
  · rw [decide_eq_true heval, if_pos heval]
  · rw [decide_eq_false heval, if_neg heval]
    rfl

/-- ...so to its tool calls only while there are rounds left. -/
theorem turnTransition_goto {turn tools exhausted : String} {rounds : Int} (hrounds : 0 ≤ rounds)
    (hfits : rounds < 2 ^ 63)
    (h : evaluateTransitions (turnTransition turn tools exhausted rounds) eval counts =
      .ok next) :
    next = exhausted ∨ next = tools ∧ countOf counts (turn ++ "->" ++ tools) < rounds.toNat ∨
      next = termEnd := by
  rw [turnTransition_eq hrounds hfits] at h
  cases h
  split
  · exact .inl rfl
  split
  · exact .inr (.inl ⟨rfl, by omega⟩)
  · exact .inr (.inr rfl)

theorem alwaysTo_goto {target : String}
    (h : evaluateTransitions (alwaysTo target) eval counts = .ok next) : next = target := by
  simp [evaluateTransitions, alwaysTo, branchFires] at h
  exact h.symm

end Routes

/-! ## 3. What a run of the chain does -/

/-- The configuration is one `Validate` accepts, as far as the loops are concerned, and its
rounds are values of an `int`. -/
structure Rounds (cfg : LoopConfig) : Prop where
  main : 0 < cfg.chain.mainRounds
  recovery : 0 < cfg.chain.recoveryRounds
  mainFits : cfg.chain.mainRounds < 2 ^ 63
  recoveryFits : cfg.chain.recoveryRounds < 2 ^ 63

theorem rounds_of_validate {cfg : Config} (h : cfg.validate = none) :
    0 < cfg.chain.mainRounds ∧ 0 < cfg.chain.recoveryRounds := by
  unfold Config.validate at h
  split at h
  · cases h
  split at h
  · cases h
  next hmain =>
  split at h
  · cases h
  · next hrecovery => exact ⟨not_le.mp hmain, not_le.mp hrecovery⟩

/-- What `EmitChain` needs to succeed, and what it gives. -/
theorem emitChain_ok {d : Declaration} {cfg : LoopConfig} {chain : ChainDefinition}
    (h : emitChain d cfg = .ok chain) :
    cfg.validate = none ∧ chain.tasks = leafLoop d cfg chain.id (chain.id ++ "-summarise") ++
      [terminalTask (chain.id ++ "-summarise") (chain.id ++ "-recovery")] := by
  unfold emitChain at h
  split at h
  · cases h
  next hval =>
  split at h
  · cases h
  · cases h
    exact ⟨hval, rfl⟩

section Run

variable {cfg : LoopConfig} {id : String} {t : TaskDefinition} {s : Stage}
  {tasks : List TaskDefinition}

theorem at_of_emitted (h : t ∈ leafLoop d cfg id (id ++ "-summarise") ++
      [terminalTask (id ++ "-summarise") (id ++ "-recovery")]) : ∃ s, At cfg id s t := by
  simp only [leafLoop, recoveryPair, List.cons_append, List.nil_append, List.mem_cons,
    List.not_mem_nil, or_false] at h
  rcases h with rfl | rfl | rfl | rfl | rfl
  · exact ⟨.agent, rfl, rfl, le_refl _, rfl, rfl⟩
  · exact ⟨.tools, rfl, rfl, Nat.zero_le _, rfl, rfl⟩
  · exact ⟨.recovery, rfl, rfl, Nat.zero_le _, rfl, rfl⟩
  · exact ⟨.recoveryTools, rfl, rfl, Nat.zero_le _, rfl, rfl⟩
  · exact ⟨.summarise, rfl, rfl, Nat.zero_le _, rfl, rfl⟩

/-- Every task of the chain is a stage's. -/
def Staged (cfg : LoopConfig) (id : String) (tasks : List TaskDefinition) : Prop :=
  ∀ t ∈ tasks, ∃ s, At cfg id s t

theorem Staged.found (h : Staged cfg id tasks)
    (hfind : findTaskByID tasks (s.taskID id) = some t) : At cfg id s t := by
  obtain ⟨hmem, hid⟩ := findTaskByID_mem hfind
  obtain ⟨s', hat⟩ := h t hmem
  have heq : s' = s := Stage.taskID_injective id (hat.named.symm.trans hid)
  exact heq ▸ hat

/-- A checkpoint may change the configuration of a task and nothing else. -/
theorem Staged.throughTask (h : Staged cfg id tasks) : Staged cfg id (tasks.map throughTask) := by
  intro t ht
  obtain ⟨t₀, ht₀, rfl⟩ := List.mem_map.mp ht
  obtain ⟨s, hat⟩ := h t₀ ht₀
  exact ⟨s, hat.named, hat.transition, hat.retries, hat.silent, hat.untimed⟩

/-- Where a stage's branches lead. -/
theorem At.goto {eval next : String} (h : At cfg id s t) (hr : Rounds cfg)
    (heval : evaluateTransitions t.transition eval counts = .ok next)
    (hend : next ≠ termEnd) : ∃ s', next = s'.taskID id ∧ Edge cfg id counts s s' := by
  rw [h.transition] at heval
  cases s with
  | agent =>
    rcases turnTransition_goto hr.main.le hr.mainFits heval with rfl | ⟨rfl, hlt⟩ | rfl
    · exact ⟨.recovery, rfl, .recover⟩
    · exact ⟨.tools, rfl, .call hlt⟩
    · exact absurd rfl hend
  | tools => exact ⟨.agent, alwaysTo_goto heval, .result⟩
  | recovery =>
    rcases turnTransition_goto hr.recovery.le hr.recoveryFits heval with rfl | ⟨rfl, hlt⟩ | rfl
    · exact ⟨.summarise, rfl, .giveUp⟩
    · exact ⟨.recoveryTools, rfl, .recoveryCall hlt⟩
    · exact absurd rfl hend
  | recoveryTools => exact ⟨.recovery, alwaysTo_goto heval, .recoveryResult⟩
  | summarise => exact absurd (alwaysTo_goto heval) hend

/-- Where a stage's failure edge leads: only the two turns have one. -/
theorem At.onFailure (h : At cfg id s t) (hstated : t.transition.onFailure ≠ "") :
    ∃ s', t.transition.onFailure = s'.taskID id ∧ Edge cfg id counts s s' := by
  rw [h.transition] at hstated ⊢
  cases s with
  | agent => exact ⟨.recovery, rfl, .recover⟩
  | recovery => exact ⟨.summarise, rfl, .giveUp⟩
  | tools | recoveryTools | summarise => exact absurd rfl hstated

/-- A step that leaves its task takes an edge. -/
inductive Passage (cfg : LoopConfig) (id : String) (counts : List (String × Nat)) (s : Stage) :
    Phase → Phase → List (String × Nat) → Prop
  | within {t : TaskDefinition} {p : Phase} {input : Typed} {n : Nat} (hp : p.task = t)
      (hn : n ≤ t.maxRetries) (hleft : ∀ input' n', p = .attempting t input' n' → n' < n) :
      Passage cfg id counts s p (.attempting t input n) counts
  | across {t t' : TaskDefinition} {input : Typed} {n : Nat}
      {via : Bool} {s' : Stage} (hat : At cfg id s' t') (hedge : Edge cfg id counts s s') :
      Passage cfg id counts s (.attempting t input n) (.entering t' via)
        (countEdge counts (edgeName id s s'))

theorem passage_of_onward {counts' : List (String × Nat)} {p p' : Phase} (hr : Rounds cfg)
    (hstaged : Staged cfg id tasks) (hat : At cfg id s p.task)
    (h : Onward tasks counts p p' counts') : Passage cfg id counts s p p' counts' := by
  cases h with
  | attempt t via input => exact .within rfl (Nat.zero_le _) (by simp)
  | @retry t input n hlt =>
    refine .within rfl hlt fun input' n' heq => ?_
    cases heq
    exact Nat.lt_succ_self n
  | @failed t t' input n hfind hstated =>
    obtain ⟨s', hgoto, hedge⟩ := hat.onFailure hstated
    have hname : t.id = s.taskID id := hat.named
    change t.transition.onFailure = _ at hgoto
    rw [hgoto] at hfind
    rw [hgoto, hname]
    exact .across (hstaged.found hfind) hedge
  | @done t t' eval next input n heval hend hfind =>
    obtain ⟨s', hgoto, hedge⟩ := hat.goto hr heval hend
    have hname : t.id = s.taskID id := hat.named
    rw [hgoto] at hfind
    rw [hgoto, hname]
    exact .across (hstaged.found hfind) hedge

end Run

/-! ## 4. What the edges count down and tally -/

section

variable {cfg : LoopConfig} {id : String}

theorem countOf_countEdge (counts : List (String × Nat)) (edge edge' : String) :
    countOf (countEdge counts edge) edge' = countOf counts edge' + if edge' = edge then 1 else 0 := by
  unfold countEdge
  rw [countOf, Assoc.lookup_cons_filter]
  split
  · next h => rw [h]; rfl
  · rfl

/-- The stages a run can still be in, this one included. -/
def rank (cfg : LoopConfig) (id : String) (counts : List (String × Nat)) : Stage → Nat
  | .summarise => 1
  | .recovery => 2 * (cfg.chain.recoveryRounds.toNat - recoveryUsed id counts) + 2
  | .recoveryTools => 2 * (cfg.chain.recoveryRounds.toNat - recoveryUsed id counts) + 3
  | .agent => 2 * (cfg.chain.mainRounds.toNat - used id counts) +
      2 * (cfg.chain.recoveryRounds.toNat - recoveryUsed id counts) + 3
  | .tools => 2 * (cfg.chain.mainRounds.toNat - used id counts) +
      2 * (cfg.chain.recoveryRounds.toNat - recoveryUsed id counts) + 4

theorem rank_pos (s : Stage) : 0 < rank cfg id counts s := by
  cases s <;> exact Nat.succ_pos _

/-- Every edge makes the rank smaller: the two that call tools by using up a round, the others by
what they lead to.  No counter ever goes down, whichever edge is counted. -/
theorem rank_lt {s s' : Stage} (h : Edge cfg id counts s s') :
    rank cfg id (countEdge counts (edgeName id s s')) s' < rank cfg id counts s := by
  have hused := countOf_countEdge counts (edgeName id s s') (edgeName id .agent .tools)
  have hrecovery := countOf_countEdge counts (edgeName id s s') (edgeName id .recovery .recoveryTools)
  cases h with
  | call h =>
    rw [if_pos rfl] at hused
    unfold used at h
    simp only [rank, used, recoveryUsed]
    omega
  | recoveryCall h =>
    rw [if_pos rfl] at hrecovery
    unfold recoveryUsed at h
    simp only [rank, recoveryUsed]
    omega
  | result | recover | recoveryResult | giveUp =>
    simp only [rank, used, recoveryUsed]
    omega

/-- The visits of a run. -/
def LoopConfig.visits (cfg : LoopConfig) : Nat :=
  2 * cfg.chain.mainRounds.toNat + 2 * cfg.chain.recoveryRounds.toNat + 3

/-- What the stages visited so far say, at the stage `s`. -/
structure Tally (cfg : LoopConfig) (id : String) (counts : List (String × Nat)) (s : Stage)
    (stages : List Stage) : Prop where
  counted : stages.count .tools ≤ used id counts
  tools : stages.count .tools ≤ cfg.chain.mainRounds.toNat
  recoveryCounted : stages.count .recoveryTools ≤ recoveryUsed id counts
  recoveryTools : stages.count .recoveryTools ≤ cfg.chain.recoveryRounds.toNat
  summarise : stages.count .summarise ≤ if s = .summarise then 1 else 0
  visited : stages.length + rank cfg id counts s ≤ cfg.visits + 1
  split : ∃ main rest, stages = main ++ rest ∧ (∀ v ∈ main, v.isMain = true) ∧
    (∀ v ∈ rest, v.isMain = false) ∧ (s.isMain = true → rest = [])

theorem tally_start : Tally cfg id [] .agent [.agent] where
  counted := Nat.zero_le _
  tools := Nat.zero_le _
  recoveryCounted := Nat.zero_le _
  recoveryTools := Nat.zero_le _
  summarise := le_refl _
  visited := Nat.add_comm _ _ |>.le
  split := ⟨[.agent], [], rfl, by simp [Stage.isMain], by simp, fun _ => rfl⟩

/-- The main stage is left for good. -/
theorem Edge.isMain {s s' : Stage} (h : Edge cfg id counts s s') (hs : s'.isMain = true) :
    s.isMain = true := by
  cases h <;> first | rfl | exact hs

theorem Tally.edge {s s' : Stage} {stages : List Stage} (h : Tally cfg id counts s stages)
    (hedge : Edge cfg id counts s s') :
    Tally cfg id (countEdge counts (edgeName id s s')) s' (stages ++ [s']) := by
  have hused := countOf_countEdge counts (edgeName id s s') (edgeName id .agent .tools)
  have hrecovery := countOf_countEdge counts (edgeName id s s') (edgeName id .recovery .recoveryTools)
  have hcounted := h.counted
  have hrecoveryCounted := h.recoveryCounted
  have htools := h.tools
  have hrecoveryTools := h.recoveryTools
  have hsummarise := h.summarise
  have hsplit : ∃ main rest, stages ++ [s'] = main ++ rest ∧ (∀ v ∈ main, v.isMain = true) ∧
      (∀ v ∈ rest, v.isMain = false) ∧ (s'.isMain = true → rest = []) := by
    obtain ⟨main, rest, rfl, hmain, hrest, hleft⟩ := h.split
    cases hs' : s'.isMain with
    | true =>
      have hnil : rest = [] := hleft (hedge.isMain hs')
      exact ⟨main ++ [s'], [], by simp [hnil],
        List.forall_mem_append.mpr ⟨hmain, List.forall_mem_singleton.mpr hs'⟩, by simp, fun _ => rfl⟩
    | false =>
      exact ⟨main, rest ++ [s'], by simp, hmain,
        List.forall_mem_append.mpr ⟨hrest, List.forall_mem_singleton.mpr hs'⟩, by simp⟩
  have hvisited : (stages ++ [s']).length + rank cfg id (countEdge counts (edgeName id s s')) s' ≤
      cfg.visits + 1 := by
    have := h.visited
    have := rank_lt hedge
    rw [List.length_append, List.length_singleton]
    omega
  refine ⟨?_, ?_, ?_, ?_, ?_, hvisited, hsplit⟩
  all_goals rw [List.count_append]
  all_goals cases hedge with
  | call _ | recoveryCall _ | result | recover | recoveryResult | giveUp =>
    simp [used, recoveryUsed] at *
    omega

end

/-! ## 5. Steps and resumptions -/

/-- The attempts of one visit. -/
def LoopConfig.attempts (cfg : LoopConfig) : Nat := cfg.retryOnFailure.toNat + 1

/-- The steps a visit still has, the one that leaves it included. -/
def stepsLeft (cfg : LoopConfig) : Phase → Nat
  | .entering _ _ => cfg.attempts + 1
  | .attempting _ _ n => cfg.attempts - n

/-- The id of a task that is being entered. -/
def entered : Phase → List String
  | .entering t _ => [t.id]
  | .attempting _ _ _ => []

/-- The run a step goes on with. -/
def goesOn {W : Type} : Move W → Option (Run W)
  | .next r => some r
  | .finished _ _ => none
  | .parked _ => none

section Steps

variable {cfg : LoopConfig} {id : String} {out : EnvOutside W} {codec : Codec} {reg : W → Registry}
  {exec : W → TaskCall → W × TaskResult} {c' : RunConfig} {s : Stage} {r' : Run W}

/-- A run of a chain of stages that is at the stage `s`. -/
structure Standing (cfg : LoopConfig) (id : String) (c : RunConfig) (s : Stage) (r : Run W) :
    Prop where
  staged : Staged cfg id c.tasks
  stage : At cfg id s r.phase.task
  left : 0 < stepsLeft cfg r.phase

/-- The steps a run still has, if it waits for nothing. -/
def potential (cfg : LoopConfig) (id : String) (s : Stage) (r : Run W) : Nat :=
  (rank cfg id r.mem.edgeCounts s - 1) * (cfg.attempts + 1) + stepsLeft cfg r.phase

/-- One step: another attempt at the stage, or over an edge to the next. -/
theorem Standing.next (hr : Rounds cfg) (h : Standing cfg id c s r)
    (hstep : step out c exec r = .next r') :
    ∃ s', Standing cfg id c s' r' ∧ potential cfg id s' r' < potential cfg id s r ∧
      (s' = s ∧ r'.mem.edgeCounts = r.mem.edgeCounts ∧ entered r'.phase = [] ∨
        Edge cfg id r.mem.edgeCounts s s' ∧
          r'.mem.edgeCounts = countEdge r.mem.edgeCounts (edgeName id s s') ∧
          entered r'.phase = [s'.taskID id]) := by
  have hpass := passage_of_onward hr h.staged h.stage (step_onward hstep)
  have hpos := h.left
  obtain ⟨w, m, p⟩ := r
  obtain ⟨w', m', p'⟩ := r'
  dsimp only at hpass hpos
  unfold potential
  dsimp only
  generalize hcounts : m'.edgeCounts = counts' at hpass ⊢
  cases hpass with
  | @within t _ input n hp hn hleft =>
    have hretries : t.maxRetries ≤ cfg.retryOnFailure.toNat := by
      have := h.stage.retries
      rwa [show (Run.phase ⟨w, m, p⟩).task = t from hp] at this
    have hnow : stepsLeft cfg (.attempting t input n) = cfg.attempts - n := rfl
    have hless : cfg.attempts - n < stepsLeft cfg p := by
      cases p with
      | entering _ _ =>
        change cfg.attempts - n < cfg.attempts + 1
        omega
      | attempting t' input' n' =>
        have ht' : t' = t := hp
        subst ht'
        have := hleft input' n' rfl
        change cfg.attempts - n < cfg.attempts - n'
        unfold LoopConfig.attempts
        omega
    refine ⟨s, ⟨h.staged, ?_, ?_⟩, ?_, .inl ⟨rfl, rfl, rfl⟩⟩
    · have := h.stage
      rwa [show (Run.phase ⟨w, m, p⟩).task = t from hp] at this
    · change 0 < cfg.attempts - n
      unfold LoopConfig.attempts
      omega
    · omega
  | @across t t' input n via s' hat hedge =>
    refine ⟨s', ⟨h.staged, hat, Nat.succ_pos _⟩, ?_, .inr ⟨hedge, rfl, by rw [← hat.named]; rfl⟩⟩
    -- the whole visit that begins is paid for by the drop of the rank
    have hlt := rank_lt hedge
    have hpos' : 0 < rank cfg id (countEdge m.edgeCounts (edgeName id s s')) s' := rank_pos s'
    calc (rank cfg id (countEdge m.edgeCounts (edgeName id s s')) s' - 1) * (cfg.attempts + 1) +
          (cfg.attempts + 1)
        = rank cfg id (countEdge m.edgeCounts (edgeName id s s')) s' * (cfg.attempts + 1) := by
          rw [← Nat.succ_mul, Nat.succ_eq_add_one, Nat.sub_add_cancel hpos']
      _ ≤ (rank cfg id m.edgeCounts s - 1) * (cfg.attempts + 1) :=
          Nat.mul_le_mul_right _ (by omega)
      _ < _ := Nat.lt_add_of_pos_right hpos

/-- A resumption: the same stage and the same counters, with all its attempts again. -/
theorem Standing.resumed {p : Parked W} {w : W} (h : Standing cfg id c s r)
    (hpark : Engine.step out c exec r = .parked p)
    (hresume : suspendAndResume out codec reg c p w = .ok (c', r')) :
    Standing cfg id c' s r' ∧ r'.mem.edgeCounts = r.mem.edgeCounts ∧
      potential cfg id s r' ≤ potential cfg id s r + cfg.attempts := by
  obtain ⟨hmem, hphase⟩ := step_parked hpark
  unfold suspendAndResume at hresume
  split at hresume
  · cases hresume
  next cp hcp =>
  obtain ⟨-, htasks, hid, hcounts⟩ := through_ok hcp
  obtain ⟨-, task, -, htask, -, rfl, rfl⟩ := resumeRun_ok hresume
  have hstaged : Staged cfg id cp.tasks := by
    rw [htasks]
    exact h.staged.throughTask
  have hstage : At cfg id s p.task := by
    have := h.stage
    rwa [hphase] at this
  have hat : At cfg id s task := by
    have hname : cp.taskID = s.taskID id := hid.trans hstage.named
    exact hstaged.found (hname ▸ htask)
  have hedges : cp.edgeCounts = r.mem.edgeCounts := hcounts.trans (congrArg Memory.edgeCounts hmem)
  refine ⟨⟨hstaged, hat, Nat.succ_pos _⟩, hedges, ?_⟩
  unfold potential
  dsimp only
  rw [hedges]
  change _ + (cfg.attempts - 0) ≤ _
  omega

end Steps

/-! ## 6. Whole runs -/

section

variable (out : EnvOutside W) (codec : Codec) (reg : W → Registry)
  (exec : W → TaskCall → W × TaskResult)

/-- A run of a chain through all its invocations: its start, its steps, and its resumptions from
the checkpoints it leaves, by any process and in any world.  Beside the state reached it keeps the
ids of the tasks entered, in order, how many steps there were, and how often each visit was
resumed, the latest first. -/
inductive History (tasks : List TaskDefinition) (input : Typed) :
    RunConfig → Run W → List String → Nat → List Nat → Prop
  | start {reg₀ : Registry} {c₀ c : RunConfig} {w : W} {r : Run W} (htasks : c₀.tasks = tasks)
      (h : startRun out reg₀ c₀ w input = .ok (c, r)) :
      History tasks input c r (entered r.phase) 0 ((entered r.phase).map fun _ => 0)
  | step {c : RunConfig} {r r' : Run W} {visits : List String} {n : Nat} {waits : List Nat}
      (hr : History tasks input c r visits n waits) (h : step out c exec r = .next r') :
      History tasks input c r' (visits ++ entered r'.phase) (n + 1)
        ((entered r'.phase).map (fun _ => 0) ++ waits)
  | resume {c c' : RunConfig} {r r' : Run W} {visits : List String} {n k : Nat} {waits : List Nat}
      {p : Parked W} {w : W} (hr : History tasks input c r visits n (k :: waits))
      (hpark : step out c exec r = .parked p)
      (h : suspendAndResume out codec reg c p w = .ok (c', r')) :
      History tasks input c' r' visits n ((k + 1) :: waits)

/-- The steps of a run that is never resumed. -/
def LoopConfig.steps (cfg : LoopConfig) : Nat := cfg.visits * (cfg.attempts + 1)

variable {out codec reg exec} {cfg : LoopConfig} {chain : ChainDefinition} {input : Typed}
  {visits : List String} {n : Nat} {waits : List Nat}

/-- What every run keeps. -/
theorem history_standing (hemit : emitChain d cfg = .ok chain) (hr : Rounds cfg)
    (h : History out codec reg exec chain.tasks input c r visits n waits) :
    ∃ s stages, Standing cfg chain.id c s r ∧
      visits = stages.map (Stage.taskID chain.id) ∧
      Tally cfg chain.id r.mem.edgeCounts s stages ∧
      waits.length = stages.length ∧
      n + potential cfg chain.id s r ≤ cfg.steps + waits.sum * cfg.attempts := by
  obtain ⟨-, hemitted⟩ := emitChain_ok hemit
  induction h with
  | @start reg₀ c₀ c w r htasks h =>
    obtain ⟨-, first, rest, acc, hfirst, -, rfl, rfl⟩ := startRun_ok h
    have hstaged : Staged cfg chain.id c₀.tasks := by
      intro t ht
      rw [htasks, hemitted] at ht
      exact at_of_emitted ht
    have hagent : At cfg chain.id .agent first := by
      rw [htasks, hemitted] at hfirst
      obtain ⟨rfl, -⟩ := List.cons.inj hfirst
      exact ⟨rfl, rfl, le_refl _, rfl, rfl⟩
    refine ⟨.agent, [.agent], ⟨hstaged, hagent, Nat.succ_pos _⟩, ?_, tally_start, rfl, ?_⟩
    · rw [List.map_singleton, ← hagent.named]
      rfl
    change 0 + ((2 * cfg.chain.mainRounds.toNat + 2 * cfg.chain.recoveryRounds.toNat + 2) *
      (cfg.attempts + 1) + (cfg.attempts + 1)) ≤ cfg.steps + 0 * cfg.attempts
    rw [← Nat.succ_mul, Nat.zero_add, Nat.zero_mul]
    exact le_refl _
  | @step c r r' visits n waits hr' hstep ih =>
    obtain ⟨s, stages, hstand, rfl, htally, hlength, hsteps⟩ := ih
    obtain ⟨s', hstand', hlt, ⟨rfl, hcounts, hin⟩ | ⟨hedge, hcounts, hin⟩⟩ := hstand.next hr hstep
    · rw [hin]
      refine ⟨s', stages, hstand', List.append_nil _, ?_, hlength, ?_⟩
      · rw [hcounts]
        exact htally
      · change _ ≤ cfg.steps + waits.sum * cfg.attempts
        omega
    · rw [hin]
      refine ⟨s', stages ++ [s'], hstand', by rw [List.map_append, List.map_singleton], ?_,
        by simp [hlength], ?_⟩
      · rw [hcounts]
        exact htally.edge hedge
      · rw [List.map_singleton, List.singleton_append, List.sum_cons, Nat.zero_add]
        omega
  | @resume c c' r r' visits n k waits p w hr' hpark hresume ih =>
    obtain ⟨s, stages, hstand, rfl, htally, hlength, hsteps⟩ := ih
    obtain ⟨hstand', hcounts, hle⟩ := hstand.resumed hpark hresume
    refine ⟨s, stages, hstand', rfl, ?_, hlength, ?_⟩
    · rw [hcounts]
      exact htally
    · rw [List.sum_cons] at hsteps ⊢
      rw [Nat.add_right_comm, Nat.succ_mul]
      omega

/-- **Every edge out of where a run stands leads somewhere.**  Through any steps and resumptions of
any chain, the run stands at a task of the chain; the failure edge of that task, if it has one, leads
to a task; and whatever value the task returns, the branch it picks leads to a task or ends the
run. -/
theorem history_edges_lead {tasks : List TaskDefinition}
    (h : History out codec reg exec tasks input c r visits n waits) :
    r.phase.task ∈ c.tasks ∧
    (r.phase.task.transition.onFailure ≠ "" →
      ∃ t, findTaskByID c.tasks r.phase.task.transition.onFailure = some t) ∧
    ∀ eval next, evaluateTransitions r.phase.task.transition eval
      r.mem.edgeCounts = .ok next →
        next = "" ∨ next = termEnd ∨ ∃ t, findTaskByID c.tasks next = some t := by
  have hstands : validateChain out.checks c.tasks = none ∧ r.phase.task ∈ c.tasks := by
    induction h with
    | start htasks h =>
      obtain ⟨hval, hplaced⟩ := startRun_placed h
      exact ⟨hval, (findTaskByID_mem hplaced.found).1⟩
    | @step c r r' visits n waits hr h ih =>
      obtain ⟨hval, hmem⟩ := ih
      have honward := step_onward h
      generalize r.phase = phase, r'.phase = phase', r'.mem.edgeCounts = counts at honward hmem ⊢
      cases honward with
      | attempt | retry => exact ⟨hval, hmem⟩
      | failed input n h | done input n heval hend h =>
        exact ⟨hval, (findTaskByID_mem h).1⟩
    -- a checkpoint's chain is validated again
    | resume hr hpark h ih =>
      unfold suspendAndResume at h
      split at h
      · cases h
      obtain ⟨hval, task, acc, htask, -, rfl, rfl⟩ := resumeRun_ok h
      exact ⟨hval, (findTaskByID_mem htask).1⟩
  obtain ⟨hval, hmem⟩ := hstands
  exact ⟨hmem, findTaskByID_of_onFailure hval hmem, fun _ _ => findTaskByID_of_goto hval hmem⟩

theorem count_taskID (id : String) (stages : List Stage) (s : Stage) :
    (stages.map (Stage.taskID id)).count (s.taskID id) = stages.count s :=
  List.count_map_of_injective stages _ (Stage.taskID_injective id) s

/-- A run that stands at a stage comes to an end or waits. -/
theorem Standing.ends {s : Stage} {bound : Nat} (hr : Rounds cfg)
    (h : Standing cfg chain.id c s r) (hbound : potential cfg chain.id s r ≤ bound) :
    Fixpoint.EndsWithin (fun r => goesOn (step out c exec r)) bound r := by
  refine Fixpoint.endsWithin_of_rank
    (R := fun r m => ∃ s, Standing cfg chain.id c s r ∧ potential cfg chain.id s r = m)
    ?_ ⟨s, h, rfl⟩ hbound
  rintro r m r' ⟨s, hstand, rfl⟩ hnext
  cases hmove : step out c exec r with
  | next r₁ =>
    rw [hmove] at hnext
    cases hnext
    obtain ⟨s', hstand', hlt, -⟩ := hstand.next hr hmove
    exact ⟨_, hlt, s', hstand', rfl⟩
  | finished w result | parked p =>
    rw [hmove] at hnext
    cases hnext

/-- **The loops of an emitted chain are bounded.**  Whatever the tasks return, and through any
number of resumptions: the tool calls are entered at most as often as the configuration has rounds
for them, the report is entered once, and nothing of the main stage is entered after anything of
the recovery.  Each invocation ends, and all of them together make no more steps than one run that
is never resumed, and one visit's attempts again for each resumption.  The visits are bounded too,
so a bound on the resumptions of one visit bounds the whole. -/
theorem emitted_loop_bounded (hemit : emitChain d cfg = .ok chain)
    (hmain : cfg.chain.mainRounds < 2 ^ 63) (hrecovery : cfg.chain.recoveryRounds < 2 ^ 63)
    (h : History out codec reg exec chain.tasks input c r visits n waits) :
    (visits.count (chain.id ++ "-tools") : Int) ≤ cfg.chain.mainRounds ∧
    (visits.count (chain.id ++ "-recovery-tools") : Int) ≤ cfg.chain.recoveryRounds ∧
    visits.count (chain.id ++ "-summarise") ≤ 1 ∧
    (∃ main rest, visits = main ++ rest ∧
      (∀ v ∈ main, v = chain.id ++ "-agent" ∨ v = chain.id ++ "-tools") ∧
      (∀ v ∈ rest, v = chain.id ++ "-recovery" ∨ v = chain.id ++ "-recovery-tools" ∨
        v = chain.id ++ "-summarise")) ∧
    n ≤ cfg.steps + waits.sum * cfg.attempts ∧
    Fixpoint.EndsWithin (fun r => goesOn (step out c exec r))
      (cfg.steps + waits.sum * cfg.attempts - n) r ∧
    waits.length = visits.length ∧ visits.length ≤ cfg.visits ∧
    ∀ bound, (∀ k ∈ waits, k ≤ bound) → n ≤ cfg.steps + cfg.visits * bound * cfg.attempts := by
  obtain ⟨hval, -⟩ := emitChain_ok hemit
  obtain ⟨hpos, hrecoveryPos⟩ := rounds_of_validate hval
  have hr : Rounds cfg := ⟨hpos, hrecoveryPos, hmain, hrecovery⟩
  obtain ⟨s, stages, hstand, rfl, htally, hlength, hsteps⟩ := history_standing hemit hr h
  have htools := count_taskID chain.id stages .tools
  have hrecoveryTools := count_taskID chain.id stages .recoveryTools
  have hsummarise := count_taskID chain.id stages .summarise
  have htally₁ := htally.tools
  have htally₂ := htally.recoveryTools
  have htally₃ := htally.summarise
  have hvisits : stages.length ≤ cfg.visits := by
    have hvisited := htally.visited
    have hpos : 0 < rank cfg chain.id r.mem.edgeCounts s := rank_pos s
    omega
  obtain ⟨main, rest, rfl, hallMain, hallRest, -⟩ := htally.split
  refine ⟨?_, ?_, ?_, ?_, by omega, hstand.ends hr ?_, by rw [hlength, List.length_map],
    by rwa [List.length_map], fun bound hbound => ?_⟩
  · change ((List.map _ _).count (Stage.taskID chain.id .tools) : Int) ≤ _
    omega
  · change ((List.map _ _).count (Stage.taskID chain.id .recoveryTools) : Int) ≤ _
    omega
  · change (List.map _ _).count (Stage.taskID chain.id .summarise) ≤ _
    rw [hsummarise]
    exact htally₃.trans (by split <;> omega)
  · refine ⟨main.map (Stage.taskID chain.id), rest.map (Stage.taskID chain.id), by simp, ?_, ?_⟩
    · intro v hv
      obtain ⟨s, hs, rfl⟩ := List.mem_map.mp hv
      have := hallMain s hs
      cases s with
      | agent => exact .inl rfl
      | tools => exact .inr rfl
      | recovery | recoveryTools | summarise => cases this
    · intro v hv
      obtain ⟨s, hs, rfl⟩ := List.mem_map.mp hv
      have := hallRest s hs
      cases s with
      | agent | tools => cases this
      | recovery => exact .inl rfl
      | recoveryTools => exact .inr (.inl rfl)
      | summarise => exact .inr (.inr rfl)
  · exact Nat.le_sub_of_add_le (by omega)
  · have hsum : waits.sum ≤ cfg.visits * bound :=
      calc waits.sum ≤ waits.length * bound := List.sum_le_card_nsmul _ _ hbound
        _ ≤ cfg.visits * bound := Nat.mul_le_mul_right _ (hlength.trans_le hvisits)
    have := Nat.mul_le_mul_right cfg.attempts hsum
    omega

end

/-! ## 7. A run that waits once -/

def loopScribe : Declaration where
  name := "scribe"
  dialect := "claude"
  posture := .askAlways
  runsAsSubagent := false
  maxTurns := none
  systemPrompt := "Write."
  inherit := true
  allow := []
  deny := []
  mcpServers := []
  declaredSources := []

/-- One round of tool calls for each of the two turns, and no retry. -/
def oneRound : LoopConfig where
  chain := ⟨0, 1, 1⟩
  policy :=
    { defaultAction := "approve", compute := ⟨0, 0, "", 0, [], []⟩
      attention := ⟨false, 0, false, 0⟩, alwaysDeny := [], alwaysAllow := [], postures := [] }
  envelopes := [("read_only", []), ("ask_always", []), ("auto_edit", [])]
  agents := []
  retryOnFailure := 0
  toolsPolicies := []
  scopeWithDialect := false

def loopChain : ChainDefinition where
  id := "scribe"
  tokenLimit := 0
  tasks := leafLoop loopScribe oneRound "scribe" "scribe-summarise" ++
    [terminalTask "scribe-summarise" "scribe-recovery"]

/-- The turn calls tools, the call waits for an approval, and goes on when it is resumed. -/
def loopScript : Nat → TaskCall → Nat × TaskResult :=
  scripted [.ok transcript "tool_call", .pending transcript "a-1" "waits",
    .ok transcript "tools_executed"]

def loopRun : RunConfig := ⟨"scribe", loopChain.tasks, 0, 4096, 0, .detached, []⟩

theorem emitted_loop_bounded_waiting : ∃ c r,
    History plainEnv plainCodec (fun _ => plainRegistry) loopScript loopChain.tasks transcript c r
      ["scribe-agent", "scribe-tools", "scribe-agent"] 4 [0, 1, 0] ∧
    Fixpoint.EndsWithin (fun r => goesOn (step plainEnv c loopScript r)) 11 r := by
  have hemit : emitChain loopScribe oneRound = .ok loopChain := by rfl
  have h₀ := @History.start Nat plainEnv plainCodec (fun _ => plainRegistry) loopScript
    loopChain.tasks transcript plainRegistry loopRun _ 0 _ rfl (by rfl)
  have h₁ := h₀.step (by rfl)
  have h₂ := h₁.step (by rfl)
  have h₃ := h₂.step (by rfl)
  have h₄ := h₃.resume (w := 2) (by rfl) (by rfl)
  have h₅ := h₄.step (by rfl)
  obtain ⟨-, -, -, -, -, hends, -⟩ := emitted_loop_bounded hemit (by decide) (by decide) h₅
  exact ⟨_, _, h₅, hends⟩

/-- When the turn fails, the recovery is there. -/
theorem history_edges_lead_recovery : ∃ c r,
    History plainEnv plainCodec (fun _ => plainRegistry) loopScript loopChain.tasks transcript c r
      ["scribe-agent"] 0 [0] ∧
    ∃ t, findTaskByID c.tasks r.phase.task.transition.onFailure = some t := by
  have h₀ := @History.start Nat plainEnv plainCodec (fun _ => plainRegistry) loopScript
    loopChain.tasks transcript plainRegistry loopRun _ 0 _ rfl (by rfl)
  exact ⟨_, _, h₀, (history_edges_lead h₀).2.1 (by decide)⟩

end AgentDecl
end Contenox
