/-
# Checkpoints

A suspended run is written down as a checkpoint and picked up again, by any process, from what
the checkpoint says.  This file has what `suspendRun` puts into it, what survives its encoding,
and where `ExecEnv` re-enters the chain.

Two things change on the way.  A list that is empty and a list that is absent are told apart by
the engine, in a task's `tools` and in the runtime allowlist, but not by the encoding, which
drops empty lists.  And the checkpoint's retry index is written and read back, and then looked
at by nobody.
-/
import Contenox.Engine.Env

namespace Contenox.Engine

open Lib

/-! ## 1. What is written -/

/-- `Checkpoint`, as far as a resumed run reads it, and its retry index. -/
structure Checkpoint where
  approvalID : String
  pendingCalls : List ToolCall
  tasks : List TaskDefinition
  taskID : String
  retryIndex : Nat
  vars : Vars
  edgeCounts : List (String × Nat)
  history : ChatHistory
  runtime : RuntimeAllowlist
  contextLength : Nat
  deriving DecidableEq, Repr

/-- What `suspendRun` saves. -/
def checkpointOf {W : Type} (c : RunConfig) (p : Parked W) : Checkpoint where
  approvalID := p.approvalID
  pendingCalls := unansweredToolCalls p.history.messages
  tasks := c.tasks
  taskID := p.task.id
  retryIndex := p.retry
  vars := p.mem.vars
  edgeCounts := p.mem.edgeCounts
  history := p.history
  runtime := c.runtime
  contextLength := c.requestedContext

/-! ## 2. The encoding -/

/-- `encoding/json` on values: the text of a value, and the value read from a text under a
declared type. -/
structure Codec where
  marshal : Datum → Except String String
  unmarshal : DataType → String → Except String Datum

/-- A variable written with its type and read back. -/
def Codec.throughVar (codec : Codec) (name : String) (v : Typed) : Except String Typed :=
  match codec.marshal v.1 with
  | .error e => .error ("taskengine: checkpoint var " ++ name ++ " is not JSON-serializable: " ++ e)
  | .ok text =>
    if v.2 = .nil then .ok (.nil, .nil)
    else
      match codec.unmarshal v.2 text with
      | .ok d => .ok (d, v.2)
      | .error e => .error ("taskengine: checkpoint var " ++ name ++ ": " ++ e)

def Codec.throughVars (codec : Codec) : Vars → Except String Vars
  | [] => .ok []
  | (name, v) :: rest =>
    match codec.throughVar name v, codec.throughVars rest with
    | .ok v', .ok rest' => .ok ((name, v') :: rest')
    | .error e, _ => .error e
    | _, .error e => .error e

/-- A task written and read back: an empty list of toolsets is dropped, and comes back absent. -/
def throughTask (t : TaskDefinition) : TaskDefinition :=
  { t with config := t.config.map fun cfg =>
      { cfg with tools := if cfg.tools = some [] then none else cfg.tools } }

/-- An attached allowlist written and read back: an empty one comes back nil. -/
def throughRuntime : RuntimeAllowlist → RuntimeAllowlist
  | .listed [] => .unrestricted
  | r => r

/-- `MarshalCheckpoint`, then `UnmarshalCheckpoint`. -/
def Codec.through (codec : Codec) (cp : Checkpoint) : Except String Checkpoint :=
  match codec.throughVars cp.vars with
  | .error e => .error e
  | .ok vars =>
    match codec.throughVar "history" (.history cp.history, .chatHistory) with
    | .ok (.history h, _) =>
      .ok { cp with
        vars := vars
        history := h
        tasks := cp.tasks.map throughTask
        runtime := throughRuntime cp.runtime }
    | .ok _ => .error "taskengine: decode checkpoint v1: history"
    | .error e => .error e

/-! ## 3. Where the run re-enters -/

/-- The restored variables over the input the resumed run is called with, the transcript. -/
def restoreVars (cp : Checkpoint) : Vars :=
  cp.vars ++ if (cp.vars.lookup "input").isSome then []
    else [("input", (.history cp.history, .chatHistory))]

/-- `ExecEnv` on a checkpoint, up to its first attempt.  What the loop keeps beside the restored
variables starts afresh: the attempt counts from zero, no failure is remembered, and the
transcript is the attempt's input. -/
def resumeRun {W : Type} (out : EnvOutside W) (reg : Registry) (c : RunConfig) (cp : Checkpoint)
    (w : W) : Except String (RunConfig × Run W) :=
  match validateChain out.checks cp.tasks with
  | some e => .error e
  | none =>
    match findTaskByID cp.tasks cp.taskID with
    | none => .error ("resume checkpoint " ++ cp.approvalID ++ " names task " ++
        out.checks.quote cp.taskID ++ " which this chain does not contain: task not found: " ++
        cp.taskID)
    | some task =>
      match collectTools reg task.id cp.runtime cp.tasks ⟨[], []⟩ with
      | .error e => .error e
      | .ok acc =>
        match out.canceled w with
        | some e => .error ("task " ++ task.id ++ ": " ++ e)
        | none =>
          let input : Typed := (.history cp.history, .chatHistory)
          .ok ({ c with
              tasks := cp.tasks, runtime := cp.runtime, requestedContext := cp.contextLength
              tools := acc.table },
            ⟨w, ⟨restoreVars cp, cp.edgeCounts, input, none, false⟩,
              .attempting task input 0⟩)

/-- What `resumeRun` needs to succeed, and what it gives. -/
theorem resumeRun_ok {W : Type} {out : EnvOutside W} {reg : Registry} {c c' : RunConfig}
    {cp : Checkpoint} {w : W} {r : Run W} (h : resumeRun out reg c cp w = .ok (c', r)) :
    validateChain out.checks cp.tasks = none ∧ ∃ task acc,
      findTaskByID cp.tasks cp.taskID = some task ∧
      collectTools reg task.id cp.runtime cp.tasks ⟨[], []⟩ = .ok acc ∧
      c' = { c with
        tasks := cp.tasks, runtime := cp.runtime, requestedContext := cp.contextLength
        tools := acc.table } ∧
      r = ⟨w, ⟨restoreVars cp, cp.edgeCounts, (.history cp.history, .chatHistory), none, false⟩,
        .attempting task (.history cp.history, .chatHistory) 0⟩ := by
  unfold resumeRun at h
  split at h
  · cases h
  next hval =>
  split at h
  · cases h
  next task htask =>
  split at h
  · cases h
  next acc hacc =>
  split at h
  · cases h
  · cases h
    exact ⟨hval, task, acc, htask, hacc, rfl, rfl⟩

/-- A suspended run written down, read back and resumed in a world that knows the verdict. -/
def suspendAndResume {W : Type} (out : EnvOutside W) (codec : Codec) (reg : W → Registry)
    (c : RunConfig) (p : Parked W) (w : W) : Except String (RunConfig × Run W) :=
  match codec.through (checkpointOf c p) with
  | .error e => .error e
  | .ok cp => resumeRun out (reg w) c cp w

end Contenox.Engine
