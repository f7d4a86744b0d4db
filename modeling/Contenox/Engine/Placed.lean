/-
# Where a run stands

A run stands at a task of its chain, with the chain's input among its variables, and every step
keeps it so (`step_placed`).  The plain surroundings at the end are those of the runs that the
other modules give as examples.
-/
import Contenox.Engine.Checkpoint
import Contenox.Engine.Batch
import Contenox.Engine.TaskExec

namespace Contenox.Engine

open Lib

variable {W : Type} {c : RunConfig}

/-! ## 1. Placed runs -/

/-- The call a step makes, if it makes one. -/
def callOf (out : EnvOutside W) (c : RunConfig) (r : Run W) : List TaskCall :=
  match r.phase with
  | .entering _ _ => []
  | .attempting task input retry =>
    match if task.timeout = "" then none else out.parseDuration task.timeout with
    | some _ => []
    | none => [taskCall out c r.mem task input retry]

variable {r : Run W} {w : W} {input : Typed} {t : TaskDefinition}

section Placed

variable {out : EnvOutside W} {exec : W → TaskCall → W × TaskResult}

def Phase.task : Phase → TaskDefinition
  | .entering task _ => task
  | .attempting task _ _ => task

/-- The task a run stands at is the one its chain has under that id, and the chain's input is
among the variables. -/
structure Placed (c : RunConfig) (task : TaskDefinition) (m : Memory) : Prop where
  found : findTaskByID c.tasks task.id = some task
  input : (m.vars.lookup "input").isSome

theorem isSome_lookup_store {vars : Vars} {name name' : String} {v : Typed}
    (h : (vars.lookup name').isSome) : ((vars.store name v).lookup name').isSome := by
  rw [lookup_store]
  split
  · rfl
  · exact h

theorem findTaskByID_id {tasks : List TaskDefinition} {id : String}
    (h : findTaskByID tasks id = some t) : findTaskByID tasks t.id = some t := by
  rw [(findTaskByID_mem h).2]
  exact h

/-- What a move of a run that is placed can be. -/
inductive PlacedMove (c : RunConfig) : Move W → Prop
  | next {r : Run W} (h : Placed c r.phase.task r.mem) : PlacedMove c (.next r)
  | finished (w : W) (result : Except String Typed) : PlacedMove c (.finished w result)
  | parked {p : Parked W} (h : Placed c p.task p.mem) : PlacedMove c (.parked p)

theorem step_placed (out : EnvOutside W) (exec : W → TaskCall → W × TaskResult)
    (hp : Placed c r.phase.task r.mem) : PlacedMove c (step out c exec r) := by
  have hspec := step_spec out c exec r
  generalize step out c exec r = mv at hspec
  cases hspec with
  | ends => exact .finished _ _
  | enters => exact .next hp
  | attempts made follows =>
    cases follows with
    | ends | finishes => exact .finished _ _
    | goesOn goto named going target =>
      exact .next ⟨findTaskByID_id target, isSome_lookup_store (isSome_lookup_store hp.input)⟩
    | retries => exact .next hp
    | failsOver edge target =>
      exact .next ⟨findTaskByID_id target, isSome_lookup_store (isSome_lookup_store
        (isSome_lookup_store (isSome_lookup_store hp.input)))⟩
    | waits => exact .parked hp

theorem startRun_placed {reg : Registry} {c₀ : RunConfig}
    (h : startRun out reg c₀ w input = .ok (c, r)) :
    validateChain out.checks c.tasks = none ∧ Placed c r.phase.task r.mem := by
  obtain ⟨hval, first, rest, acc, htasks, -, rfl, rfl⟩ := startRun_ok h
  refine ⟨hval, ?_, rfl⟩
  simp [Phase.task, findTaskByID, htasks]

end Placed

/-! ## 2. Plain surroundings -/

/-- Surroundings in which nothing fails and no text is rewritten. -/
def plainEnv {W : Type} : EnvOutside W where
  renderTemplate text _ := .ok text
  expandStepMacros text _ := text
  capTaskInput v _ := v.1
  ensureFailureContext v _ _ := v.1
  convertToType d _ := some d
  sprint _ := ""
  goType _ := ""
  parseDuration _ := none
  canceled _ := none
  saveCheckpoint _ := .saved
  checks := ⟨id, "bad request"⟩

/-- A model that says nothing, and a provider that takes every call. -/
def plainHandlers {σ ρ : Type} (withText : ρ → String → ρ) (serialize : ρ → Except String String)
    (resultValue : ρ → Typed) (exec : σ → ToolsCall → Unit → σ × ExecResult ρ) :
    Handlers σ Unit ρ where
  outside := plainOutside withText serialize exec
  table_sub _ _ _ h := h
  canceled _ := none
  complete w _ h := (w, .ok (h, ⟨.assistant, "", "", []⟩))
  countHistory _ _ _ := none
  prompt w _ _ := (w, .ok "")
  slide _ _ h := .ok h
  routePrompt _ := ""
  formatInt _ := ""
  shift _ := false
  uniqueCallID _ id := id
  blockInput _ := ()
  resultValue := resultValue
  normalize := .ok
  renderOutput _ _ := .ok ""
  goType _ := ""

/-- A provider that answers with texts. -/
def textHandlers {σ : Type} (exec : σ → ToolsCall → Unit → σ × ExecResult String) :
    Handlers σ Unit String :=
  plainHandlers (fun _ text => text) .ok (fun r => (.str r, .string)) exec

/-- An encoding of two transcripts. -/
def pairCodec (h h' : ChatHistory) : Codec where
  marshal d := .ok (if d = .history h then "0" else "1")
  unmarshal _ text := .ok (.history (if text = "0" then h else h'))

def plainCodec : Codec := pairCodec ⟨[], 0, 0⟩ ⟨[], 0, 0⟩

def plainRegistry : Registry := ⟨.ok [], fun _ _ _ => .notFound⟩

def fsRegistry : Registry := ⟨.ok ["fs"], fun _ _ _ => .tools ["read"]⟩

def runTools (retries : Int) : TaskDefinition where
  id := "run_tools"
  handler := .executeToolCalls
  systemInstruction := ""
  promptTemplate := ""
  outputTemplate := ""
  print := ""
  inputVar := ""
  inputMaxBytes := 0
  timeout := ""
  retryOnFailure := retries
  config := none
  policies := []
  tools := none
  transition := ⟨"", []⟩

def transcript : Typed := (.history ⟨[], 0, 0⟩, .chatHistory)

/-- Answers its calls in turn with what the script says; a verdict changes nothing but that it
has come. -/
def scripted (script : List TaskResult) (n : Nat) (_ : TaskCall) : Nat × TaskResult :=
  (n + 1, script.getD n (.ok transcript "tools_executed"))

end Contenox.Engine
