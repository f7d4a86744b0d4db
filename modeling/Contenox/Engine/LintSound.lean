/-
# The linter against the interpreter

The linter's sets over-approximate every run: the type of what is routed into a task is in the
task's set, the stored variables are among those the linter has for the task, each under one of
its types, and the transition values are those the handler's signature lists.  So much is an
invariant of the interpreter's steps (`Sound`, `step_sound`), and it survives a suspension, since
a run waits for an approval only where a transcript came in.

There is one place where the two read a task differently.  The interpreter renders a prompt
template that is not empty; the linter looks at one that is not BLANK.  A task with a template of
white space gets a string where the linter counts on what was routed into it
(`blank_template_misleads`), and the theorem asks for a chain without such templates.

The chain is the one the interpreter is given.  `MacroEnv` expands the macros of a chain's texts
before that, and a template of macros that all expand to nothing is then no template: the
linter, which read the macros, counts on a string, and the task gets what was routed into it.
What is said of the chain as written is so only as long as every template of it that is not blank
is not blank when it is expanded.
-/
import Contenox.Engine.Lint
import Contenox.Engine.Scope

namespace Contenox.Engine

open Lib

variable {tasks : List TaskDefinition} {l : Lint} {t : TaskDefinition} {m : Memory} {c : RunConfig}

/-! ## 1. What a task looks like to the linter -/

/-- The task without its configuration, which the linter does not read and a checkpoint may
change. -/
def shape (t : TaskDefinition) : TaskDefinition := { t with config := none }

/-- What does not look at the configuration agrees on tasks of one shape. -/
theorem eq_of_shape {β : Type} {t' : TaskDefinition} (h : shape t = shape t')
    (f : TaskDefinition → β) (hf : ∀ t, f (shape t) = f t) : f t = f t' := by
  rw [← hf t, h, hf t']

/-- No prompt template is white space only. -/
def NoBlankPrompt (tasks : List TaskDefinition) : Prop :=
  ∀ t ∈ tasks, t.promptTemplate ≠ "" → GoStrings.trimSpace t.promptTemplate ≠ ""

/-- What a closed state holds for the success edges of a reached task. -/
theorem Closed.success (h : Closed tasks l) (ht : t ∈ tasks) (hr : t.id ∈ l.reachable) :
    successOut l t ⊆ l.varSets t.id ∧ successOut l t ⊆ l.varSets "previous_output" ∧
      (successOut l t ≠ ∅ → ∀ g ∈ successTargets t, successOut l t ⊆ l.inSets g ∧
        l.avail t.id ∪ {t.id, "previous_output"} ⊆ l.avail g ∧ g ∈ l.reachable) := by
  have hall := h t ht hr
  have hmem : ∀ d, d ∈ [Demand.var t.id (successOut l t),
      .var "previous_output" (successOut l t)] → d ∈ demands l t := by
    intro d hd
    simp only [demands, List.mem_append]
    exact .inl (.inl (.inl hd))
  refine ⟨hall _ (hmem (.var t.id (successOut l t)) (by simp)),
    hall _ (hmem (.var "previous_output" (successOut l t)) (by simp)), fun hne g hg => ?_⟩
  have hedge : ∀ d ∈ feed t.id g (successOut l t) {t.id, "previous_output"}, d.Holds l := by
    intro d hd
    refine hall d ?_
    simp only [demands, List.mem_append]
    rw [if_pos hne]
    exact .inl (.inr (List.mem_flatMap.mpr ⟨g, hg, hd⟩))
  exact ⟨hedge (.input g _) (by simp [feed]), hedge (.avail g t.id _) (by simp [feed]),
    hedge (.reach g) (by simp [feed])⟩

/-- What a closed state holds for the failure edge of a reached task. -/
theorem Closed.failure (h : Closed tasks l) (ht : t ∈ tasks) (hr : t.id ∈ l.reachable)
    (hf : t.transition.onFailure ≠ "") :
    (failureOut l t ⊆ l.varSets t.id ∧ failureOut l t ⊆ l.varSets "previous_output" ∧
      .string ∈ l.varSets "last_error" ∧ .string ∈ l.varSets (t.id ++ "_error")) ∧
    failureOut l t ⊆ l.inSets t.transition.onFailure ∧
    l.avail t.id ∪ {t.id, "previous_output", "last_error", t.id ++ "_error"} ⊆
      l.avail t.transition.onFailure ∧
    t.transition.onFailure ∈ l.reachable := by
  have hall := h t ht hr
  have hvar : ∀ d, d ∈ [Demand.var t.id (failureOut l t),
      .var "previous_output" (failureOut l t), .var "last_error" {.string},
      .var (t.id ++ "_error") {.string}] → d.Holds l := by
    intro d hd
    refine hall d ?_
    simp only [demands, List.mem_append]
    rw [if_pos hf]
    exact .inl (.inl (.inr hd))
  have hedge : ∀ d ∈ feed t.id t.transition.onFailure (failureOut l t)
      {t.id, "previous_output", "last_error", t.id ++ "_error"}, d.Holds l := by
    intro d hd
    refine hall d ?_
    simp only [demands, List.mem_append]
    rw [if_pos hf, if_pos hf]
    exact .inr hd
  have hlast : ({.string} : DtSet) ⊆ l.varSets "last_error" :=
    hvar (.var "last_error" ({DataType.string} : DtSet)) (by simp)
  have herror : ({.string} : DtSet) ⊆ l.varSets (t.id ++ "_error") :=
    hvar (.var (t.id ++ "_error") ({DataType.string} : DtSet)) (by simp)
  refine ⟨⟨hvar (.var t.id (failureOut l t)) (by simp),
      hvar (.var "previous_output" (failureOut l t)) (by simp),
      Finset.singleton_subset_iff.mp hlast, Finset.singleton_subset_iff.mp herror⟩,
    hedge (.input _ _) (by simp [feed]), hedge (.avail _ _ _) (by simp [feed]),
    hedge (.reach _) (by simp [feed])⟩

/-! ## 2. The invariant -/

variable {name eval : String} {v : Typed} {dt : DataType}

section Invariant

variable {W : Type} {out : EnvOutside W} {viaFailure : Bool} {input : Typed}

/-- The stored variables are those the linter has for the task, under its types. -/
structure SoundVars (l : Lint) (id : String) (vars : Vars) : Prop where
  types : ∀ name v, vars.lookup name = some v → Admits (l.varSets name) v.2
  avail : ∀ name, (vars.lookup name).isSome → name ∈ l.avail id

inductive Sound (l : Lint) : Run W → Prop
  | entering {w : W} {m : Memory} {t : TaskDefinition} {viaFailure : Bool}
      (hreach : t.id ∈ l.reachable) (hvars : SoundVars l t.id m.vars)
      (hin : Admits (l.inSets t.id) m.output.2) : Sound l ⟨w, m, .entering t viaFailure⟩
  | attempting {w : W} {m : Memory} {t : TaskDefinition} {input : Typed} {retry : Nat}
      (hreach : t.id ∈ l.reachable) (hvars : SoundVars l t.id m.vars)
      (hin : Admits (effectiveInput l t) input.2) :
      Sound l ⟨w, m, .attempting t input retry⟩

/-- A run that is parked can be taken up again with a transcript. -/
structure SoundParked (l : Lint) (p : Parked W) : Prop where
  reach : p.task.id ∈ l.reachable
  vars : SoundVars l p.task.id p.mem.vars
  input : Admits (effectiveInput l p.task) .chatHistory

/-- What a step from the task `src` can lead to.  What it routes into a task is of a type the
linter has on the edge. -/
inductive SoundMove (l : Lint) (src : TaskDefinition) : Move W → Prop
  | next {r : Run W} (h : Sound l r)
      (hedge : ∀ t viaFailure, r.phase = .entering t viaFailure →
        Admits (carriedTypes l src t) r.mem.output.2) : SoundMove l src (.next r)
  | finished (w : W) (result : Except String Typed) : SoundMove l src (.finished w result)
  | parked {p : Parked W} (h : SoundParked l p) : SoundMove l src (.parked p)

variable {id : String}

theorem SoundVars.store {vars : Vars} (h : SoundVars l id vars) (hv : Admits (l.varSets name) v.2)
    (hname : name ∈ l.avail id) : SoundVars l id (vars.store name v) := by
  refine ⟨fun name' v' hlookup => ?_, fun name' hsome => ?_⟩
  · rw [lookup_store] at hlookup
    split at hlookup
    · rename_i he
      cases hlookup
      exact he ▸ hv
    · exact h.types name' v' hlookup
  · rw [lookup_store] at hsome
    split at hsome
    · rename_i he
      exact he ▸ hname
    · exact h.avail name' hsome

theorem SoundVars.mono {id' : String} {vars : Vars} (h : SoundVars l id vars)
    (hsub : l.avail id ⊆ l.avail id') : SoundVars l id' vars :=
  ⟨h.types, fun name hsome => hsub (h.avail name hsome)⟩

/-- The last lines of `prepareInput`: the cap, and the failure context. -/
def finishInput (out : EnvOutside W) (m : Memory) (t : TaskDefinition) (viaFailure : Bool)
    (v : Typed) : Except String Typed :=
  let capped : Typed := (out.capTaskInput v t.inputMaxBytes, v.2)
  match m.failure with
  | some f =>
    if viaFailure then .ok (out.ensureFailureContext capped f.taskID f.err, capped.2)
    else .ok capped
  | none => .ok capped

theorem finishInput_type (h : finishInput out m t viaFailure v = .ok input) : input.2 = v.2 := by
  unfold finishInput at h
  split at h
  · split at h
    · cases h
      rfl
    · cases h
      rfl
  · cases h
    rfl

/-- Where the type of a prepared input comes from. -/
theorem prepareInput_type (h : prepareInput out m t viaFailure = .ok input) :
    (t.promptTemplate ≠ "" ∧ input.2 = .string) ∨ (t.promptTemplate = "" ∧ t.inputVar ≠ "" ∧
      ∃ v, m.vars.lookup t.inputVar = some v ∧ input.2 = v.2) ∨
    (t.promptTemplate = "" ∧ t.inputVar = "" ∧ input.2 = m.output.2) := by
  unfold prepareInput at h
  by_cases hprompt : t.promptTemplate = ""
  · simp only [hprompt, if_true] at h
    by_cases hvar : t.inputVar = ""
    · simp only [hvar, if_true] at h
      exact .inr (.inr ⟨hprompt, hvar, finishInput_type h⟩)
    · simp only [hvar, if_false] at h
      cases hlookup : m.vars.lookup t.inputVar with
      | none => simp [hlookup] at h
      | some v =>
        simp only [hlookup] at h
        exact .inr (.inl ⟨hprompt, hvar, v, rfl, finishInput_type h⟩)
  · refine .inl ⟨hprompt, ?_⟩
    simp only [hprompt, if_false] at h
    split at h
    · cases h
    cases hrender : out.renderTemplate (out.expandStepMacros t.promptTemplate m.edgeCounts)
      m.vars with
    | error e => simp [hrender] at h
    | ok text =>
      simp only [hrender] at h
      rw [finishInput_type h]

/-- The prepared input has a type the linter computed. -/
theorem prepareInput_sound
    (hblank : t.promptTemplate ≠ "" → GoStrings.trimSpace t.promptTemplate ≠ "")
    (hvars : SoundVars l t.id m.vars) (hin : Admits (l.inSets t.id) m.output.2)
    (h : prepareInput out m t viaFailure = .ok input) : Admits (effectiveInput l t) input.2 := by
  have hempty : GoStrings.trimSpace "" = "" := by decide
  unfold effectiveInput
  rcases prepareInput_type h with ⟨hp, htype⟩ | ⟨hp, hv, v, hlookup, htype⟩ | ⟨hp, hv, htype⟩
  · rw [if_pos (hblank hp), htype]
    exact .inl (Finset.mem_singleton_self _)
  · rw [hp, if_neg (by simp [hempty]), if_pos hv, htype]
    exact hvars.types _ v hlookup
  · rw [hp, if_neg (by simp [hempty]), if_neg (by simp [hv]), htype]
    exact hin

/-! ## 3. One step -/

/-- The output of a success has a type the linter computed. -/
theorem successOut_admits {input : DataType} {template : String}
    (htemplate : GoStrings.trimSpace t.outputTemplate ≠ "" → template ≠ "")
    (hin : Admits (effectiveInput l t) input)
    (h : (handlerSignatures t.handler).Promises input template dt) :
    Admits (successOut l t) dt := by
  unfold successOut
  unfold HandlerSignature.Promises at h
  cases hmode : (handlerSignatures t.handler).mode with
  | fixed =>
    rw [hmode] at h
    simp only [hmode]
    exact .inl (by rw [h]; exact Finset.mem_singleton_self _)
  | passthrough =>
    rw [hmode] at h
    simp only [hmode]
    rw [show dt = input from h]
    exact hin
  | dynamic =>
    rw [hmode] at h
    simp only [hmode]
    split
    · rename_i hne
      exact .inl (by rw [h (htemplate hne)]; exact Finset.mem_singleton_self _)
    · exact .inr (Finset.mem_singleton_self _)
  | none =>
    rw [hmode] at h
    exact h.elim

variable {output : Typed}

/-- What a failed task hands on has a type the linter computed. -/
theorem failedOutput_admits {output : Typed} (hin : Admits (effectiveInput l t) input.2)
    (hv : output = nothing ∨ output.2 = input.2 ∨ ((handlerSignatures t.handler).mode = .fixed ∧
        output.2 = (handlerSignatures t.handler).output)) :
    Admits (failureOut l t) (failedOutput input output).2 := by
  have hleft : Admits (failureOut l t) input.2 := hin.mono Finset.subset_union_left
  have hinput : Admits (failureOut l t)
      (if input.2 = .any then (input.1, inferDataType input.1) else input).2 := by
    split
    · rename_i hany
      rw [hany] at hleft
      exact .inr (hleft.elim id id)
    · exact hleft
  unfold failedOutput
  by_cases hreal : output.1 ≠ .nil ∧ output.2 ≠ .any ∧ output.2 ≠ .nil
  · rw [if_pos hreal, if_neg hreal.2.1]
    rcases hv with rfl | hsame | ⟨hmode, hout⟩
    · exact absurd rfl hreal.1
    · rw [hsame]
      exact hleft
    refine .inl (Finset.mem_union_right _ ?_)
    rw [successOut, hmode, hout]
    exact Finset.mem_singleton_self _
  · rw [if_neg hreal]
    exact hinput

section Routes

variable {out : EnvOutside W}

theorem id_of_findTaskByID (h : findTaskByID tasks id = some t) :
    t.id = id := (findTaskByID_mem h).2

variable {w : W} {t' : TaskDefinition} (hclosed : Closed c.tasks l) (ht : t ∈ c.tasks)
  (hreach : t.id ∈ l.reachable) (hvars : SoundVars l t.id m.vars)

include hclosed ht hreach hvars

/-- After a success the run stands where the linter expects it. -/
theorem sound_done {next : String} (hout : Admits (successOut l t) output.2)
    (hnext : evaluateTransitions t.transition eval m.edgeCounts = .ok next)
    (hne : next ≠ "") (hend : next ≠ termEnd) (ht' : findTaskByID c.tasks next = some t') :
    SoundMove l t (.next ⟨w, m.done t output next, .entering t' false⟩) := by
  obtain ⟨hvar, hprev, hedges⟩ := hclosed.success ht hreach
  have htarget : next ∈ successTargets t := by
    refine mem_targetsFrom.mpr ⟨by simp, hne, hend, ?_⟩
    rcases evaluateTransitions_goto hnext with he | hb
    · exact absurd he hne
    · exact hb
  obtain ⟨hin, havail, hreach'⟩ := hedges hout.nonempty next htarget
  rw [← id_of_findTaskByID ht'] at hin havail hreach' htarget
  have hmem : ∀ name ∈ ({t.id, "previous_output"} : Finset String), name ∈ l.avail t'.id :=
    fun name hname => havail (Finset.mem_union_right _ hname)
  refine .next (.entering hreach' ?_ (hout.mono hin)) ?_
  · have hbase : SoundVars l t'.id m.vars :=
      hvars.mono (Finset.subset_union_left.trans havail)
    exact (hbase.store (hout.mono hprev) (hmem _ (by simp))).store (hout.mono hvar)
      (hmem _ (by simp))
  · rintro t'' viaFailure ⟨rfl, rfl⟩
    refine hout.mono ?_
    rw [carriedTypes, if_pos htarget]
    exact Finset.subset_union_left

/-- After a failure the run stands where the linter expects it. -/
theorem sound_failed {v : Typed} {err : String} (hout : Admits (failureOut l t) v.2)
    (hf : t.transition.onFailure ≠ "")
    (ht' : findTaskByID c.tasks t.transition.onFailure = some t') :
    SoundMove l t (.next ⟨w, m.failed t v err, .entering t' true⟩) := by
  obtain ⟨⟨hvar, hprev, hlast, herror⟩, hin, havail, hreach'⟩ := hclosed.failure ht hreach hf
  have hid := id_of_findTaskByID ht'
  rw [← hid] at hin havail hreach'
  have hmem : ∀ name ∈ ({t.id, "previous_output", "last_error", t.id ++ "_error"} :
      Finset String), name ∈ l.avail t'.id :=
    fun name hname => havail (Finset.mem_union_right _ hname)
  refine .next (.entering hreach' ?_ (hout.mono hin)) ?_
  · have hbase : SoundVars l t'.id m.vars :=
      hvars.mono (Finset.subset_union_left.trans havail)
    exact (((hbase.store (hout.mono hvar) (hmem _ (by simp))).store (hout.mono hprev)
      (hmem _ (by simp))).store (.inl hlast) (hmem _ (by simp))).store (.inl herror)
      (hmem _ (by simp))
  · rintro t'' viaFailure ⟨rfl, rfl⟩
    refine hout.mono ?_
    rw [carriedTypes, if_pos hid.symm]
    exact Finset.subset_union_right

end Routes

end Invariant

/-! ## 4. Runs -/

section

variable {σ α ρ : Type} {hd : Handlers σ α ρ} {out : EnvOutside (Recorded σ)} {codec : Codec}
  {reg : Recorded σ → Registry} {r : Run (Recorded σ)}

/-- One step keeps the invariant. -/
theorem step_sound (hd : Handlers σ α ρ) (hmac : out.expandStepMacros = expandStepMacros)
    (hblank : NoBlankPrompt c.tasks) (hclosed : Closed c.tasks l) (hp : Placed c r.phase.task r.mem)
    (h : Sound l r) : SoundMove l r.phase.task (step out c (taskExec hd) r) := by
  have ht := (findTaskByID_mem hp.found).1
  have hspec := step_spec out c (taskExec hd) r
  generalize step out c (taskExec hd) r = mv at hspec
  cases h with
  | @entering w m t viaFailure hreach hvars hin =>
    cases hspec with
    | ends => exact .finished _ _
    | enters prepared =>
      refine .next (.attempting hreach hvars (prepareInput_sound (hblank t ht) hvars hin prepared)) ?_
      rintro t' viaFailure' ⟨⟩
  | @attempting w m t input retry hreach hvars hin =>
    have hkept := taskExec_kept hd w (taskCall out c m t input retry)
    cases hspec with
    | ends => exact .finished _ _
    | attempts made follows =>
      rw [show taskExec hd w (taskCall out c m t input retry) = _ from made] at hkept
      cases follows with
      | ends | finishes => exact .finished _ _
      | goesOn goto named going target =>
        cases hkept with
        | ok v eval htype heval =>
          refine sound_done hclosed ht hreach hvars (successOut_admits ?_ hin htype) goto named
            going target
          intro hne
          change out.expandStepMacros t.outputTemplate m.edgeCounts ≠ ""
          rw [hmac]
          exact expandStepMacros_ne _ (GoStrings.ne_of_trimSpace_ne hne)
      | retries left =>
        refine .next (.attempting hreach hvars hin) ?_
        rintro t' viaFailure ⟨⟩
      | failsOver edge target =>
        cases hkept with
        | failed v e hv =>
          exact sound_failed hclosed ht hreach hvars (failedOutput_admits hin hv) edge target
      | waits transcript =>
        cases hkept with
        | pending v id e hv =>
          refine .parked ⟨hreach, hvars, ?_⟩
          rcases hv with rfl | hv
          · cases transcript
          · exact (show input.2 = .chatHistory from hv) ▸ hin

/-- A run of the chain on an input: its start, its steps, and its resumptions from the
checkpoints it leaves, by any process. -/
inductive Reaches (out : EnvOutside (Recorded σ)) (codec : Codec) (reg : Recorded σ → Registry)
    (hd : Handlers σ α ρ) (tasks : List TaskDefinition) (input : Typed) :
    RunConfig → Run (Recorded σ) → Prop
  | start {reg₀ : Registry} {c₀ c : RunConfig} {w : Recorded σ} {r : Run (Recorded σ)}
      (htasks : c₀.tasks = tasks) (h : startRun out reg₀ c₀ w input = .ok (c, r)) :
      Reaches out codec reg hd tasks input c r
  | step {c : RunConfig} {r r' : Run (Recorded σ)}
      (hr : Reaches out codec reg hd tasks input c r)
      (h : step out c (taskExec hd) r = .next r') : Reaches out codec reg hd tasks input c r'
  | resume {c c' : RunConfig} {r r' : Run (Recorded σ)} {p : Parked (Recorded σ)}
      {w : Recorded σ} (hr : Reaches out codec reg hd tasks input c r)
      (hpark : step out c (taskExec hd) r = .parked p)
      (h : suspendAndResume out codec reg c p w = .ok (c', r')) :
      Reaches out codec reg hd tasks input c' r'

/-- What holds of a run at every point: its chain is the linter's but for the configurations,
it stands at a task of the chain, and the sets are right. -/
structure Lintable (tasks : List TaskDefinition) (out : EnvOutside (Recorded σ)) (l : Lint)
    (c : RunConfig) (r : Run (Recorded σ)) : Prop where
  shapes : c.tasks.map shape = tasks.map shape
  valid : validateChain out.checks c.tasks = none
  placed : Placed c r.phase.task r.mem
  sound : Sound l r

/-- A task of the run's chain has the shape of one of the linter's. -/
theorem exists_shape (hshapes : c.tasks.map shape = tasks.map shape) (ht : t ∈ c.tasks) :
    ∃ t₀ ∈ tasks, shape t₀ = shape t := by
  have hmem : shape t ∈ tasks.map shape := hshapes ▸ List.mem_map_of_mem ht
  obtain ⟨t₀, ht₀, heq⟩ := List.mem_map.mp hmem
  exact ⟨t₀, ht₀, heq⟩

theorem Closed.of_shapes (h : Closed tasks l) (hshapes : c.tasks.map shape = tasks.map shape) :
    Closed c.tasks l := by
  intro t ht hreach
  obtain ⟨t₀, ht₀, heq⟩ := exists_shape hshapes ht
  have hid : t₀.id = t.id := eq_of_shape heq (·.id) fun _ => rfl
  have hdemands : demands l t₀ = demands l t := eq_of_shape heq (demands l) fun _ => rfl
  rw [← hdemands]
  exact h t₀ ht₀ (hid ▸ hreach)

theorem NoBlankPrompt.of_shapes (h : NoBlankPrompt tasks)
    (hshapes : c.tasks.map shape = tasks.map shape) : NoBlankPrompt c.tasks := by
  intro t ht
  obtain ⟨t₀, ht₀, heq⟩ := exists_shape hshapes ht
  have hprompt : t₀.promptTemplate = t.promptTemplate :=
    eq_of_shape heq (·.promptTemplate) fun _ => rfl
  exact hprompt ▸ h t₀ ht₀

/-- A variable read back from a checkpoint has the type it was written with. -/
theorem throughVar_type {v' : Typed} (h : codec.throughVar name v = .ok v') : v'.2 = v.2 := by
  unfold Codec.throughVar at h
  split at h
  · cases h
  split at h
  · rename_i hnil
    cases h
    exact hnil.symm
  · split at h
    · cases h
      rfl
    · cases h

/-- The variables read back are those written, under their types. -/
theorem throughVars_lookup {vars vars' : Vars} (h : codec.throughVars vars = .ok vars')
    (name : String) : (vars'.lookup name).map (·.2) = (vars.lookup name).map (·.2) := by
  induction vars generalizing vars' with
  | nil =>
    cases h
    rfl
  | cons p vars ih =>
    obtain ⟨n, v⟩ := p
    unfold Codec.throughVars at h
    split at h
    · rename_i v' rest' hv hrest
      cases h
      rw [List.lookup_cons, List.lookup_cons]
      cases name == n with
      | true => simp [throughVar_type hv]
      | false => exact ih hrest
    · cases h
    · cases h

theorem find_throughTask (ts : List TaskDefinition) (id : String) :
    findTaskByID (ts.map throughTask) id = (findTaskByID ts id).map throughTask := by
  unfold findTaskByID
  rw [List.find?_map]
  rfl

/-- What a checkpoint is after it was written and read back. -/
theorem through_ok {cp cp' : Checkpoint} (h : codec.through cp = .ok cp') :
    codec.throughVars cp.vars = .ok cp'.vars ∧ cp'.tasks = cp.tasks.map throughTask ∧
      cp'.taskID = cp.taskID ∧ cp'.edgeCounts = cp.edgeCounts := by
  unfold Codec.through at h
  split at h
  · cases h
  rename_i vars hvars
  split at h
  · cases h
    exact ⟨hvars, rfl, rfl, rfl⟩
  · cases h
  · cases h

variable {w : Recorded σ}

/-- A resumption takes the run up at the same task with the same variables. -/
theorem suspendAndResume_lintable {p : Parked (Recorded σ)} {c' : RunConfig} {r' : Run (Recorded σ)}
    (hshapes : c.tasks.map shape = tasks.map shape) (hp : Placed c p.task p.mem)
    (hs : SoundParked l p) (h : suspendAndResume out codec reg c p w = .ok (c', r')) :
    Lintable tasks out l c' r' := by
  unfold suspendAndResume at h
  split at h
  · cases h
  rename_i cp hcp
  obtain ⟨hvars, htasks, hid, -⟩ := through_ok hcp
  obtain ⟨hval, task, -, htask, -, rfl, rfl⟩ := resumeRun_ok h
  have htask' : task = throughTask p.task := by
    rw [htasks, hid] at htask
    change findTaskByID (c.tasks.map throughTask) p.task.id = some task at htask
    rw [find_throughTask, hp.found] at htask
    exact (Option.some.inj htask).symm
  have hlookup := throughVars_lookup hvars
  change ∀ name, (cp.vars.lookup name).map (·.2) = (p.mem.vars.lookup name).map (·.2) at hlookup
  -- the chain's input is among the variables, so the transcript does not take its place
  have hsome : ∀ name, (cp.vars.lookup name).isSome = (p.mem.vars.lookup name).isSome := by
    intro name
    have := congrArg Option.isSome (hlookup name)
    simpa using this
  have hrestore : restoreVars cp = cp.vars := by
    rw [restoreVars, if_pos (by rw [hsome]; exact hp.input), List.append_nil]
  have hshapes' : cp.tasks.map shape = tasks.map shape := by
    rw [htasks, ← hshapes, List.map_map]
    rfl
  have hsound : SoundVars l task.id cp.vars := by
    refine ⟨fun name v hv => ?_, fun name hv => ?_⟩
    · have hv' := hlookup name
      rw [hv] at hv'
      cases hold : p.mem.vars.lookup name with
      | none => simp [hold] at hv'
      | some old =>
        rw [hold] at hv'
        rw [show v.2 = old.2 by simpa using hv']
        exact hs.vars.types name old hold
    · rw [htask']
      exact hs.vars.avail name (by rw [← hsome]; exact hv)
  refine ⟨hshapes', hval, ⟨findTaskByID_id htask, ?_⟩, ?_⟩
  · rw [hrestore, hsome]
    exact hp.input
  refine .attempting ?_ (hrestore ▸ hsound) ?_
  · rw [htask']
    exact hs.reach
  · rw [htask']
    exact hs.input

variable {entry : DtSet} {input : Typed}

section

variable (hmac : out.expandStepMacros = expandStepMacros) (hblank : NoBlankPrompt tasks)
  (hclosed : Closed tasks l)

include hmac hblank hclosed

theorem Lintable.move (hd : Handlers σ α ρ) (h : Lintable tasks out l c r) :
    SoundMove l r.phase.task (step out c (taskExec hd) r) :=
  step_sound hd hmac (hblank.of_shapes h.shapes) (hclosed.of_shapes h.shapes) h.placed h.sound

/-- **The linter's sets hold at every point of every run.** -/
theorem reaches_lintable {first : TaskDefinition} {rest : List TaskDefinition}
    (htasks : tasks = first :: rest) (hseed : Seeded first entry l) (hinput : Admits entry input.2)
    (h : Reaches out codec reg hd tasks input c r) : Lintable tasks out l c r := by
  induction h with
  | @start reg₀ c₀ c w r hc₀ h =>
    obtain ⟨hval, hp⟩ := startRun_placed h
    obtain ⟨-, first', rest', acc, hfirst, -, rfl, rfl⟩ := startRun_ok h
    rw [hc₀, htasks] at hfirst
    obtain ⟨rfl, rfl⟩ := List.cons.inj hfirst
    have hnone : SoundVars l first.id [] := ⟨fun _ _ h => (nomatch h), fun _ h => (nomatch h)⟩
    have hvars := hnone.store (hinput.mono hseed.var) hseed.avail
    exact ⟨by rw [← hc₀], hval, hp, .entering hseed.reach hvars (hinput.mono hseed.input)⟩
  | @step c r r' hr hstep ih =>
    have hs := ih.move hmac hblank hclosed hd
    have hp := step_placed out (taskExec hd) ih.placed
    rw [hstep] at hs hp
    cases hs with
    | next hsound hedge =>
      cases hp with
      | next hplaced => exact ⟨ih.shapes, ih.valid, hplaced, hsound⟩
  | @resume c c' r r' p w hr hpark hresume ih =>
    have hs := ih.move hmac hblank hclosed hd
    have hp := step_placed out (taskExec hd) ih.placed
    rw [hpark] at hs hp
    cases hs with
    | parked hsound =>
      cases hp with
      | parked hplaced => exact suspendAndResume_lintable ih.shapes hplaced hsound hresume

end

/-! ## 5. No run contradicts a lint error -/

/-- The run attempts a task of the shape of `t` with this call. -/
def Attempts (out : EnvOutside (Recorded σ)) (c : RunConfig) (r : Run (Recorded σ))
    (t : TaskDefinition) (call : TaskCall) : Prop :=
  call ∈ callOf out c r ∧ shape r.phase.task = shape t

/-- The handler of the task accepts the type. -/
def Accepts (t : TaskDefinition) (dt : DataType) : Prop :=
  dt ∈ acceptSet (handlerSignatures t.handler)

/-- What an error says cannot be, happening in a run on `input`. -/
def LintError.Contradicted (out : EnvOutside (Recorded σ)) (hd : Handlers σ α ρ) (input : Typed)
    (c : RunConfig) (r : Run (Recorded σ)) : LintError → Prop
  | .invalid _ => False
  | .routeVocabulary t => ∃ call v eval, Attempts out c r t call ∧
      (taskExec hd r.world call).2 = .ok v eval
  | .deadBranch t b _ => ∃ call v eval, Attempts out c r t call ∧
      (taskExec hd r.world call).2 = .ok v eval ∧
      branchFires eval r.mem.edgeCounts b = true
  | .inputVar t _ => shape r.phase.task = shape t ∧ (r.mem.vars.lookup t.inputVar).isSome
  | .promptTemplate t => ∃ call, Attempts out c r t call ∧ Accepts t call.input.2
  | .inputVarTypes t _ => ∃ call, Attempts out c r t call ∧ Accepts t call.input.2
  | .entryInput t _ => Accepts t input.2
  | .edge p t _ => ∃ r' t' viaFailure, step out c (taskExec hd) r = .next r' ∧
      shape r.phase.task = shape p ∧ r'.phase = .entering t' viaFailure ∧ shape t' = shape t ∧
      Accepts t r'.mem.output.2

variable {call : TaskCall}

/-- The input of an attempt is of a type the linter computed. -/
theorem callOf_sound (h : Sound l r) (hcall : call ∈ callOf out c r) :
    Admits (effectiveInput l r.phase.task) call.input.2 ∧
      call.task = stepTask out r.mem r.phase.task := by
  cases h with
  | entering hreach hvars hin => cases hcall
  | attempting hreach hvars hin =>
    unfold callOf at hcall
    dsimp only at hcall
    split at hcall
    · cases hcall
    · rw [List.mem_singleton.mp hcall]
      exact ⟨hin, rfl⟩

theorem Sound.vars (h : Sound l r) : SoundVars l r.phase.task.id r.mem.vars := by
  cases h with
  | entering _ hvars | attempting _ hvars => exact hvars

/-- A set without `any` that shares no type with what the handler accepts admits none of it. -/
theorem not_accepts {s : DtSet} (hadmits : Admits s dt) (hany : .any ∉ s)
    (hdisj : s ∩ acceptSet (handlerSignatures t.handler) = ∅) : ¬ Accepts t dt := by
  intro hacc
  rcases hadmits with hmem | hmem
  · have : dt ∈ s ∩ acceptSet (handlerSignatures t.handler) := Finset.mem_inter.mpr ⟨hmem, hacc⟩
    rw [hdisj] at this
    exact absurd this (Finset.notMem_empty _)
  · exact hany hmem

/-- A branch that is dead for the transition values of a list fires for none of them. -/
theorem not_fires_of_isDead {evals : List String}
    {counts : List (String × Nat)} {b : TransitionBranch} (hdead : isDead evals b = true)
    (heval : eval ∈ evals) : branchFires eval counts b = false := by
  unfold isDead at hdead
  rw [Bool.and_eq_true, List.all_eq_true] at hdead
  obtain ⟨hop, hall⟩ := hdead
  have hcompare : compare b.operator eval b.when = false := by simpa using hall eval heval
  unfold branchFires
  simp only [List.mem_cons, List.not_mem_nil, or_false, decide_eq_true_eq] at hop
  rcases hop with hop | hop | hop | hop
  all_goals
    rw [hop] at hcompare ⊢
    exact hcompare

/-- A route task without labels never succeeds. -/
theorem route_without_labels (hd : Handlers σ α ρ) (hroute : call.task.handler = .route)
    (hnone : declaredRoutes call.task.transition.branches = []) :
    (taskExec hd w call).2 ≠ .ok v eval := by
  unfold taskExec handlerExec
  split
  · simp
  rw [hroute]
  dsimp only
  unfold routeTask
  rw [hnone]
  simp

theorem check_not_contradicted (hd : Handlers σ α ρ)
    (hmac : out.expandStepMacros = expandStepMacros) (hblank : NoBlankPrompt tasks)
    (hclosed : Closed tasks l) (hinput : Admits entry input.2) (h : Lintable tasks out l c r)
    {e : LintError} (he : e ∈ check tasks entry l) : ¬ e.Contradicted out hd input c r := by
  -- what an attempt at a task of the shape of `t` is made with
  have hattempt : ∀ {t : TaskDefinition} {call : TaskCall}, Attempts out c r t call →
      Admits (effectiveInput l t) call.input.2 ∧ call.task.handler = t.handler ∧
        call.task.transition = t.transition := by
    rintro t call ⟨hcall, hshape⟩
    obtain ⟨hin, htask⟩ := callOf_sound h.sound hcall
    rw [eq_of_shape hshape (effectiveInput l) fun _ => rfl] at hin
    refine ⟨hin, ?_, ?_⟩
    · rw [htask]
      exact eq_of_shape hshape (·.handler) fun _ => rfl
    · rw [htask]
      exact eq_of_shape hshape (·.transition) fun _ => rfl
  obtain ⟨t, ht, he⟩ := List.mem_flatMap.mp he
  rw [List.mem_append, List.mem_append] at he
  rcases he with (he | he) | he
  · obtain ⟨hroute, he⟩ := List.mem_ite_nil_right.mp he
    rw [List.mem_singleton.mp he]
    rintro ⟨call, v, eval, hat, hok⟩
    obtain ⟨-, hhandler, htransition⟩ := hattempt hat
    exact route_without_labels hd (by rw [hhandler, hroute.1]) (by rw [htransition, hroute.2]) hok
  · unfold checkDeadBranches at he
    split at he
    · cases he
    rename_i evals hevals
    obtain ⟨b, hb, rfl⟩ := List.mem_map.mp he
    rw [List.mem_filter] at hb
    rintro ⟨call, v, eval, hat, hok, hfires⟩
    obtain ⟨-, hhandler, -⟩ := hattempt hat
    have hkept := taskExec_kept hd r.world call
    rw [hok] at hkept
    cases hkept with
    | ok v eval htype heval =>
      have hmem := heval evals (by rw [hhandler]; exact hevals)
      rw [not_fires_of_isDead hb.2 hmem] at hfires
      cases hfires
  obtain ⟨-, he⟩ := List.mem_ite_nil_right.mp he
  rcases List.mem_append.mp he with he | he
  · obtain ⟨hvar, he⟩ := List.mem_ite_nil_left.mp he
    push Not at hvar
    rw [List.mem_singleton.mp he]
    rintro ⟨hshape, hsome⟩
    have hmem := h.sound.vars.avail _ hsome
    rw [eq_of_shape hshape (·.id) fun _ => rfl] at hmem
    exact hvar.2.2 hmem
  unfold checkInputTypes at he
  split at he
  · rename_i hprompt
    obtain ⟨hno, he⟩ := List.mem_ite_nil_right.mp he
    rw [List.mem_singleton.mp he]
    rintro ⟨call, hat, hacc⟩
    obtain ⟨hin, -, -⟩ := hattempt hat
    rw [effectiveInput, if_pos hprompt] at hin
    rcases hin with hin | hin
    · rw [Finset.mem_singleton.mp hin] at hacc
      exact hno.2 hacc
    · exact absurd (Finset.mem_singleton.mp hin) (by decide)
  rename_i hprompt
  split at he
  · rename_i hvar
    obtain ⟨hs, he⟩ := List.mem_ite_nil_left.mp he
    push Not at hs
    rw [List.mem_singleton.mp he]
    rintro ⟨call, hat, hacc⟩
    obtain ⟨hin, -, -⟩ := hattempt hat
    rw [effectiveInput, if_neg hprompt, if_pos hvar] at hin
    exact not_accepts hin hs.2.1 hs.2.2.2 hacc
  obtain ⟨-, he⟩ := List.mem_ite_nil_left.mp he
  rcases List.mem_append.mp he with he | he
  · obtain ⟨hentry, he⟩ := List.mem_ite_nil_right.mp he
    rw [List.mem_singleton.mp he]
    exact not_accepts hinput hentry.2.1 hentry.2.2
  obtain ⟨p, hp, he⟩ := List.mem_flatMap.mp he
  unfold checkTypedEdge at he
  obtain ⟨hedge, he⟩ := List.mem_ite_nil_left.mp he
  push Not at hedge
  rw [List.mem_singleton.mp he]
  rintro ⟨r', t', viaFailure, hstep, hsrc, hphase, hdst, hacc⟩
  have hmove := h.move hmac hblank hclosed hd
  rw [hstep] at hmove
  cases hmove with
  | next hsound hcarried =>
    have hin := hcarried t' viaFailure hphase
    rw [eq_of_shape hsrc (carriedTypes l · t') fun _ => rfl,
      eq_of_shape hdst (carriedTypes l p) fun _ => rfl] at hin
    exact not_accepts hin hedge.2.1 hedge.2.2 hacc

/-- **The linter is sound.**  For every accepted chain without blank prompt templates the
propagation ends, and at every point of every run of the chain on an input of a declared type:
what is routed into a task, and what its attempt is made with, is of a type the linter computed;
the stored variables are among those it has for the task; and nothing contradicts an error it
reports, so a branch it calls dead does not fire. -/
theorem lint_sound (hd : Handlers σ α ρ) (out : EnvOutside (Recorded σ)) (codec : Codec)
    (reg : Recorded σ → Registry) (hmac : out.expandStepMacros = expandStepMacros)
    (tasks : List TaskDefinition) (entryTypes : List DataType)
    (hval : validateChain out.checks tasks = none) (hblank : NoBlankPrompt tasks) :
    ∃ l, lint tasks entryTypes = some l ∧
      lintChain out.checks tasks entryTypes = some (check tasks (entrySet entryTypes) l) ∧
      ∀ input, Admits (entrySet entryTypes) input.2 → ∀ c r,
        Reaches out codec reg hd tasks input c r →
        (∀ t viaFailure, r.phase = .entering t viaFailure →
          Admits (l.inSets t.id) r.mem.output.2) ∧
        (∀ call ∈ callOf out c r, Admits (effectiveInput l r.phase.task) call.input.2) ∧
        (∀ name, (r.mem.vars.lookup name).isSome → name ∈ l.avail r.phase.task.id) ∧
        ∀ e ∈ check tasks (entrySet entryTypes) l, ¬ e.Contradicted out hd input c r := by
  obtain ⟨first, rest, l, htasks, hlint, hseed, hclosed⟩ := lint_terminates hval entryTypes
  refine ⟨l, hlint, ?_, ?_⟩
  · rw [lintChain, hval, hlint]
    rfl
  intro input hinput c r hreach
  have h := reaches_lintable hmac hblank hclosed htasks hseed hinput hreach
  refine ⟨?_, fun call hcall => (callOf_sound h.sound hcall).1, h.sound.vars.avail,
    fun e he => check_not_contradicted hd hmac hblank hclosed hinput h he⟩
  intro t viaFailure hphase
  have hsound := h.sound
  obtain ⟨w, m, phase⟩ := r
  cases hphase
  cases hsound with
  | entering hreach hvars hin => exact hin

end

/-! ## 6. A blank prompt template -/

/-- The surroundings of the other examples, with the step macros of the source. -/
def macroEnv : EnvOutside (Recorded Unit) := { plainEnv with expandStepMacros := expandStepMacros }

/-- A task that hands on its input and one that executes the batch of a transcript. -/
def twoTasks (promptTemplate : String) : List TaskDefinition :=
  [{ bareTask "pass" .noop none none with
      promptTemplate, transition := ⟨"", [⟨.default, "", "run", ""⟩]⟩ },
    bareTask "run" .executeToolCalls none none]

def twoTaskConfig (promptTemplate : String) : RunConfig :=
  ⟨"chain", twoTasks promptTemplate, 0, 4096, 0, .detached, []⟩

/-- The run on a transcript when it stands before the second task, the first having handed on
`v`. -/
def beforeSecond (v : Typed) : Run (Recorded Unit) :=
  ⟨((), []), ⟨Vars.store (Vars.store [("input", transcript)] "previous_output" v) "pass" v,
      [("pass->run", 1)], v, none, false⟩,
    .entering (bareTask "run" .executeToolCalls none none) false⟩

theorem reaches_beforeSecond {promptTemplate : String} {v : Typed} {r₀ r₁ : Run (Recorded Unit)}
    (h₀ : startRun macroEnv plainRegistry (twoTaskConfig promptTemplate) ((), []) transcript =
      .ok (twoTaskConfig promptTemplate, r₀))
    (h₁ : step macroEnv (twoTaskConfig promptTemplate) (taskExec quietHandlers) r₀ = .next r₁)
    (h₂ : step macroEnv (twoTaskConfig promptTemplate) (taskExec quietHandlers) r₁ =
      .next (beforeSecond v)) :
    Reaches macroEnv plainCodec (fun _ => plainRegistry) quietHandlers (twoTasks promptTemplate)
      transcript (twoTaskConfig promptTemplate) (beforeSecond v) :=
  .step (.step (.start rfl h₀) h₁) h₂

/-- A chain without templates: the transcript arrives as the transcript the linter expects. -/
theorem lint_sound_twoTasks :
    ∃ l, lint (twoTasks "") [.chatHistory] = some l ∧
      Admits (l.inSets "run") (beforeSecond transcript).mem.output.2 := by
  obtain ⟨l, hl, -, h⟩ := lint_sound quietHandlers macroEnv plainCodec (fun _ => plainRegistry) rfl
    (twoTasks "") [.chatHistory] (by rfl) (by unfold NoBlankPrompt; decide)
  have hreach : Reaches macroEnv plainCodec (fun _ => plainRegistry) quietHandlers (twoTasks "")
      transcript (twoTaskConfig "") (beforeSecond transcript) :=
    reaches_beforeSecond (by rfl) (by rfl) (by rfl)
  exact ⟨l, hl, (h transcript (.inl (by decide)) _ _ hreach).1 _ false rfl⟩

/-- A prompt template of one blank: a string is routed into the second task, for which the
linter has computed a transcript and nothing else. -/
theorem blank_template_misleads :
    validateChain macroEnv.checks (twoTasks " ") = none ∧
    (lint (twoTasks " ") [.chatHistory]).map (fun l => l.inSets "run") =
      some {DataType.chatHistory} ∧
    Admits (entrySet [.chatHistory]) transcript.2 ∧
    Reaches macroEnv plainCodec (fun _ => plainRegistry) quietHandlers (twoTasks " ") transcript
      (twoTaskConfig " ") (beforeSecond (.str " ", .string)) ∧
    (beforeSecond (.str " ", .string)).mem.output.2 = .string := by
  refine ⟨by rfl, by decide +kernel, .inl (by decide), ?_, rfl⟩
  exact reaches_beforeSecond (by rfl) (by rfl) (by rfl)

end Contenox.Engine
