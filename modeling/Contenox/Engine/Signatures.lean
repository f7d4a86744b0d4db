/-
# What the handlers promise

Each handler has a signature: the types it accepts, how the type of its output comes from the
type of its input, and, for some, the closed list of transition values it answers with.  The
linter reasons with the signatures; the executor was written without them.  Here the one is
checked against the other (`taskExec_kept`).
-/
import Mathlib.Data.Finset.Card
import Contenox.Engine.TaskExec

namespace Contenox.Engine

open Lib

/-! ## 1. Step macros -/

/-- The text between the opening of an `edge_count` macro and the first closing brace, where two
of them stand there and the text is not empty. -/
def macroEdge (cs : List Char) : Option (List Char) :=
  let edge := cs.takeWhile (· ≠ '\x7d')
  if edge ≠ [] ∧ ['\x7d', '\x7d'].isPrefixOf (cs.drop edge.length) then some edge else none

/-- The macros from left to right; `skip` counts the characters of the last one still to be
passed over. -/
def expandFrom (edgeCounts : List (String × Nat)) : Nat → List Char → List Char
  | _, [] => []
  | skip + 1, _ :: cs => expandFrom edgeCounts skip cs
  | 0, c :: cs =>
    let opening := "\x7b\x7bedge_count:".toList
    if opening.isPrefixOf (c :: cs) then
      match macroEdge ((c :: cs).drop opening.length) with
      | some edge =>
        (toString (countOf edgeCounts (GoStrings.trimSpace (String.ofList edge)))).toList ++
          expandFrom edgeCounts (opening.length + edge.length + 1) cs
      | none => c :: expandFrom edgeCounts 0 cs
    else c :: expandFrom edgeCounts 0 cs

def expandStepMacros (s : String) (edgeCounts : List (String × Nat)) : String :=
  String.ofList (expandFrom edgeCounts 0 s.toList)

theorem toString_nat_toList_ne_nil (n : Nat) : (toString n).toList ≠ [] := by
  intro h
  simp [toString, Nat.repr] at h

/-- Expanding empties no text. -/
theorem expandStepMacros_ne {s : String} (edgeCounts : List (String × Nat)) (h : s ≠ "") :
    expandStepMacros s edgeCounts ≠ "" := by
  intro he
  have hnil : expandFrom edgeCounts 0 s.toList = [] := by
    have := congrArg String.toList he
    simpa [expandStepMacros] using this
  cases hs : s.toList with
  | nil => exact h (String.toList_inj.mp hs)
  | cons c cs =>
    rw [hs, expandFrom] at hnil
    split at hnil
    · split at hnil
      · exact toString_nat_toList_ne_nil _ (List.append_eq_nil_iff.mp hnil).1
      · cases hnil
    · cases hnil

/-! ## 2. Signatures -/

/-- A set of types, one bit for each in the source. -/
abbrev DtSet := Finset DataType

/-- The type is one of the set, or the set stands for any. -/
def Admits (s : DtSet) (dt : DataType) : Prop := dt ∈ s ∨ .any ∈ s

variable {s : DtSet} {dt : DataType}

theorem Admits.mono {s' : DtSet} (h : Admits s dt) (hsub : s ⊆ s') : Admits s' dt := by
  rcases h with h | h
  · exact .inl (hsub h)
  · exact .inr (hsub h)

theorem Admits.nonempty (h : Admits s dt) : s ≠ ∅ := by
  rintro rfl
  rcases h with h | h
  · exact absurd h (Finset.notMem_empty _)
  · exact absurd h (Finset.notMem_empty _)

inductive HandlerOutputMode
  | fixed
  | passthrough
  | dynamic
  | none
  deriving DecidableEq, Repr

/-- `HandlerSignature`.  No inputs means any, no list of transition values an open one. -/
structure HandlerSignature where
  inputs : List DataType
  mode : HandlerOutputMode
  output : DataType
  successEvals : Option (List String)
  deriving DecidableEq, Repr

/-- `handlerSignatures`; what the map does not have reads as its zero value. -/
def handlerSignatures : TaskHandler → HandlerSignature
  | .chatCompletion =>
    ⟨[.string, .chatHistory], .fixed, .chatHistory, some ["tool_call", "executed"]⟩
  | .executeToolCalls =>
    ⟨[.chatHistory], .fixed, .chatHistory,
      some ["noop", "no_calls_found", "tools_executed", "failed"]⟩
  | .route => ⟨[.string, .int, .chatHistory], .passthrough, .any, none⟩
  | .tools => ⟨[], .dynamic, .any, none⟩
  | .noop => ⟨[], .passthrough, .any, some ["noop"]⟩
  | .raiseError => ⟨[.string, .int, .chatHistory], .none, .any, none⟩
  | .unknown _ => ⟨[], .fixed, .any, none⟩

/-- The type of an output, as the mode of a signature promises it for an input type and an
output template. -/
def HandlerSignature.Promises (sig : HandlerSignature) (input : DataType) (template : String)
    (dt : DataType) : Prop :=
  match sig.mode with
  | .fixed => dt = sig.output
  | .passthrough => dt = input
  | .dynamic => template ≠ "" → dt = .string
  | .none => False

/-! ## 3. The executor keeps them -/

section

/-- What the executor may answer a call with: an output of the promised type with a promised
transition value; with an error, nothing, the input, or an output of the promised fixed type;
and a transcript that waits for an approval only where a transcript came in. -/
inductive Kept (call : TaskCall) : TaskResult → Prop
  | ok (v : Typed) (eval : String)
      (htype : (handlerSignatures call.task.handler).Promises call.input.2
        call.task.outputTemplate v.2)
      (heval : ∀ evals, (handlerSignatures call.task.handler).successEvals = some evals →
        eval ∈ evals) : Kept call (.ok v eval)
  | failed (v : Typed) (e : String)
      (hv : v = nothing ∨ v.2 = call.input.2 ∨
        ((handlerSignatures call.task.handler).mode = .fixed ∧
          v.2 = (handlerSignatures call.task.handler).output)) : Kept call (.failed v e)
  | pending (v : Typed) (id e : String)
      (hv : v = nothing ∨ call.input.2 = .chatHistory) : Kept call (.pending v id e)

variable {call : TaskCall} {σ α ρ : Type} {hd : Handlers σ α ρ}

theorem Kept.of_handler {kind : TaskHandler} {v : Typed} {eval : String}
    (handler : call.task.handler = kind)
    (htype : (handlerSignatures kind).Promises call.input.2 call.task.outputTemplate v.2)
    (heval : ∀ evals, (handlerSignatures kind).successEvals = some evals → eval ∈ evals) :
    Kept call (.ok v eval) := by
  subst handler
  exact .ok v eval htype heval

/-- A batch is answered with a transcript, and one of four transition values. -/
theorem executeToolCalls_kept (out : Outside σ α ρ) (task : ToolTask) (s : σ)
    (h : ChatHistory) (handler : call.task.handler = .executeToolCalls) (input : call.input.2 = .chatHistory) :
    Kept call (batchResult (executeToolCalls out task s h)) := by
  have hreturned : ∀ (b : Batch σ) (eval : String),
      eval ∈ ["noop", "no_calls_found", "tools_executed", "failed"] →
      Kept call (batchResult (.returned b eval)) := by
    intro b eval heval
    unfold batchResult
    dsimp only
    split
    · refine .of_handler handler rfl ?_
      rintro evals ⟨rfl⟩
      exact heval
    · refine .failed _ _ (.inr (.inr ?_))
      rw [handler]
      exact ⟨rfl, rfl⟩
  have hfinish : ∀ (calls : List ToolCall) (b : Batch σ),
      Kept call (batchResult (finish out calls b)) := by
    intro calls b
    refine hreturned _ _ ?_
    split
    · simp
    split
    · simp
    · simp
  have hcases := executeToolCalls_cases out task s h
  generalize executeToolCalls out task s h = o at hcases
  cases hcases with
  | idle among => exact hreturned _ _ (List.mem_of_mem_take (i := 2) among)
  | unscoped => exact .failed _ _ (.inl rfl)
  | worked =>
    generalize turns out task _ _ _ = t
    cases t with
    | next | stop => exact hfinish _ _
    | suspend => exact .pending _ _ _ (.inr input)
    | abort => exact .failed _ _ (.inl rfl)

theorem ChatSpec.kept {w : Recorded σ} {p : Recorded σ × TaskResult}
    (handler : call.task.handler = .chatCompletion) (h : ChatSpec hd w call p) : Kept call p.2 := by
  cases h with
  | refused | failed => exact .failed _ _ (.inl rfl)
  | answered _ _ heval =>
    refine .of_handler handler rfl ?_
    rintro evals ⟨rfl⟩
    exact heval

/-- A tools task with an output template answers with a text. -/
theorem blockResult_kept (handler : call.task.handler = .tools) (r : ρ) :
    Kept call (blockResult hd call.task.outputTemplate r) := by
  have hopen : ∀ {v eval}, (call.task.outputTemplate ≠ "" → v.2 = .string) →
      Kept call (.ok v eval) :=
    fun htype => .of_handler handler htype (nofun)
  unfold blockResult
  split
  · exact .failed _ _ (.inl rfl)
  split
  · next htemplate => exact hopen fun hne => absurd htemplate hne
  split
  · exact hopen fun _ => rfl
  · exact .failed _ _ (.inl rfl)

/-- **The executor keeps every signature.** -/
theorem taskExec_kept (hd : Handlers σ α ρ) (w : Recorded σ) (call : TaskCall) :
    Kept call (taskExec hd w call).2 := by
  have hspec := taskExec_spec hd w call
  generalize taskExec hd w call = p at hspec
  cases hspec with
  | refused | routeFails | flushFails | blockFails => exact .failed _ _ (.inl rfl)
  | declined => exact .failed _ _ (.inr (.inl rfl))
  | noop handler =>
    refine .of_handler handler rfl ?_
    rintro evals ⟨rfl⟩
    simp
  | routes handler => exact .of_handler handler rfl (nofun)
  | completes handler chat | flushes handler _ chat => exact chat.kept handler
  | flushWaits handler input => exact .pending _ _ _ (.inr input)
  | batch handler h input => exact executeToolCalls_kept _ _ _ _ handler input
  | blockWaits => exact .pending _ _ _ (.inl rfl)
  | blockRuns handler => exact blockResult_kept handler _

end

end Contenox.Engine
