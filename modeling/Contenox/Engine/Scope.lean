/-
# Which tools a run executes

A call of a model reaches the provider only through `execute_tool_calls`, by a task of its own
or as the flush of a chat task.  The chain's table holds tools of toolsets that the run's
allowlist and some task of the chain grant; the executing task's own list, where it states one,
and its hidden names are checked at the call.  So much holds of every event on record
(`run_calls_permitted`).

Two things do not.  A task that states no list is not confined to what it was granted, since it
was granted nothing: it may execute any tool of the chain.  And a `tools` task executes the tool
of its block, which no allowlist is asked about.
-/
import Contenox.Engine.TaskExec
import Contenox.Engine.Placed
import Mathlib.Logic.Relation

namespace Contenox.Engine

open Lib

variable {σ α ρ : Type} {hd : Handlers σ α ρ} {c : RunConfig}

/-! ## 1. What an allowlist grants -/

/-- A toolset is granted by a star or by its name, and an exclusion takes the grant back. -/
def Grants (allowlist : List String) (name : String) : Prop :=
  "!" ++ name ∉ allowlist ∧
    ("*" ∈ allowlist ∨ (name ∈ allowlist ∧ name ≠ "*" ∧ GoStrings.hasPrefix name "!" = false))

theorem trimPrefix_append (lead rest : String) : trimPrefix (lead ++ rest) lead = rest := by
  unfold trimPrefix
  rw [if_pos (GoStrings.hasPrefix_iff.mpr ⟨rest, rfl⟩), String.toList_append, List.drop_left,
    String.ofList_toList]

/-- The toolsets an allowlist lets through are those it grants. -/
theorem mem_applyAllowlist {allowlist all : List String} {name : String} :
    name ∈ applyAllowlist allowlist all ↔ name ∈ all ∧ Grants allowlist name := by
  have hexcl : name ∈ (allowlist.filter fun e => e ≠ "*" && GoStrings.hasPrefix e "!").map
      (trimPrefix · "!") ↔ "!" ++ name ∈ allowlist := by
    rw [List.mem_map]
    constructor
    · rintro ⟨e, he, rfl⟩
      rw [List.mem_filter, Bool.and_eq_true] at he
      obtain ⟨rest, rfl⟩ := GoStrings.hasPrefix_iff.mp he.2.2
      rw [trimPrefix_append]
      exact he.1
    · intro h
      refine ⟨"!" ++ name, ?_, trimPrefix_append _ _⟩
      rw [List.mem_filter, Bool.and_eq_true]
      refine ⟨h, ?_, GoStrings.hasPrefix_iff.mpr ⟨name, rfl⟩⟩
      have hne : "!" ++ name ≠ "*" := by
        intro heq
        have := congrArg String.toList heq
        simp at this
      simpa using hne
  unfold applyAllowlist Grants
  by_cases hnil : allowlist = []
  · simp [hnil]
  rw [if_neg hnil, List.mem_filter]
  simp only [Bool.and_eq_true, List.contains_eq_mem, decide_eq_false_iff_not,
    hexcl, Bool.or_eq_true, decide_eq_true_eq, List.mem_filter, Bool.not_eq_eq_eq_not,
    Bool.not_true]

/-- What an attached allowlist grants. -/
def RuntimeAllowlist.Grants : RuntimeAllowlist → String → Prop
  | .detached, _ | .unrestricted, _ => True
  | .listed names, name => Engine.Grants names name

variable {runtime : RuntimeAllowlist}

/-- A name that resolves is granted by the list. -/
theorem grants_of_resolveToolsNames {allowlist names : List String}
    {supports : Except String (List String)} {name : String}
    (h : resolveToolsNames runtime allowlist supports = .ok names) (hn : name ∈ names) :
    Grants allowlist name ∧ runtime.Grants name := by
  cases supports with
  | error e => cases h
  | ok all =>
    obtain ⟨htask, hrun⟩ := mem_resolveToolsNames h hn
    refine ⟨(mem_applyAllowlist.mp htask).2, ?_⟩
    cases runtime with
    | listed list => exact (mem_applyAllowlist.mp hrun).2
    | _ => trivial

/-! ## 2. The table holds granted tools -/

/-- The toolset is granted by the run's allowlist and by a task of the chain. -/
def GrantedIn (runtime : RuntimeAllowlist) (tasks : List TaskDefinition) (toolsName : String) :
    Prop :=
  runtime.Grants toolsName ∧
    ∃ t ∈ tasks, ∃ cfg, t.config = some cfg ∧ Grants (cfg.tools.getD []) toolsName

section Table

variable {reg : Registry} {current : String} {acc acc' : Collected} {names : List String}

theorem mem_putTools {toolsName : String} {table : List ToolWithResolution} {t : ToolWithResolution}
    (h : t ∈ putTools toolsName names table) : t ∈ table ∨ t.toolsName = toolsName := by
  induction names generalizing table with
  | nil => exact .inl h
  | cons name rest ih =>
    rcases ih h with hput | hname
    · rw [putTool, List.mem_append, List.mem_filter, List.mem_singleton] at hput
      rcases hput with ⟨hmem, -⟩ | rfl
      · exact .inl hmem
      · exact .inr rfl
    · exact .inr hname

theorem collectToolsets_spec {P : String → Prop} {task : TaskDefinition}
    (h : collectToolsets reg current task names acc = .ok acc') (hnames : ∀ n ∈ names, P n)
    (hacc : ∀ t ∈ acc.table, P t.toolsName) : ∀ t ∈ acc'.table, P t.toolsName := by
  induction names generalizing acc with
  | nil =>
    cases h
    exact hacc
  | cons name rest ih =>
    have hrest : ∀ n ∈ rest, P n := fun n hn => hnames n (List.mem_cons_of_mem _ hn)
    unfold collectToolsets at h
    split at h
    · exact ih h hrest hacc
    dsimp only at h
    split at h
    · exact ih h hrest hacc
    · exact ih h hrest hacc
    · cases h
    refine ih h hrest ?_
    intro t ht
    rcases mem_putTools ht with hmem | hname
    · exact hacc t hmem
    · rw [hname]
      exact hnames name List.mem_cons_self

/-- Every tool of the table is granted to some task. -/
theorem collectTools_spec {all tasks : List TaskDefinition}
    (h : collectTools reg current runtime tasks acc = .ok acc') (hsub : ∀ t ∈ tasks, t ∈ all)
    (hacc : ∀ t ∈ acc.table, GrantedIn runtime all t.toolsName) :
    ∀ t ∈ acc'.table, GrantedIn runtime all t.toolsName := by
  induction tasks generalizing acc with
  | nil =>
    cases h
    exact hacc
  | cons task rest ih =>
    have hrest : ∀ t ∈ rest, t ∈ all := fun t ht => hsub t (List.mem_cons_of_mem _ ht)
    unfold collectTools at h
    split at h
    · exact ih h hrest hacc
    next config hconfig =>
    split at h
    · cases h
    next names hnames =>
    split at h
    · cases h
    next acc₁ hacc₁ =>
    refine ih h hrest (collectToolsets_spec hacc₁ ?_ hacc)
    intro n hn
    obtain ⟨htask, hrun⟩ := grants_of_resolveToolsNames hnames hn
    exact ⟨hrun, task, hsub task List.mem_cons_self, config, hconfig, htask⟩

end Table

/-! ## 3. A batch hands over admitted calls only -/

section

variable {out : Outside σ α ρ} {task : ToolTask} {scope : Option (List String)}
  {b : Batch σ} {calls : List ToolCall}

/-- Every call on the list was admitted, in some state of the provider. -/
def AllAdmitted (out : Outside σ α ρ) (task : ToolTask) (scope : Option (List String))
    (calls : List (ToolsCall × Bool)) : Prop :=
  ∀ c ∈ calls, ∃ w tc, Admitted out task scope w tc c.1

theorem AllAdmitted.concat {calls : List (ToolsCall × Bool)} {w : σ} {tc : ToolCall}
    {call : ToolsCall} {pending : Bool} (h : AllAdmitted out task scope calls)
    (adm : Admitted out task scope w tc call) :
    AllAdmitted out task scope (calls ++ [(call, pending)]) :=
  List.forall_mem_append.mpr ⟨h, List.forall_mem_singleton.mpr ⟨w, tc, adm⟩⟩

def Turn.batch : Turn σ → Batch σ
  | .next b | .stop b | .suspend b _ | .abort b _ => b

theorem turn_admitted (tc : ToolCall) (h : AllAdmitted out task scope b.calls) :
    AllAdmitted out task scope (turn out task scope b tc).batch.calls := by
  have hspec := turn_spec out task scope b tc
  have hans : ∀ b', Answers out task scope b tc b' → AllAdmitted out task scope b'.calls := by
    intro b' ans
    rcases ans.calls with heq | ⟨call, adm, heq⟩
    · rwa [heq]
    · rw [heq]
      exact h.concat adm
  generalize turn out task scope b tc = r at hspec
  cases hspec with
  | next new ans | stop new ans => exact hans _ ans
  | suspend new adm => exact h.concat adm
  | skip _ | abort _ => exact h

/-- Every call that is made was admitted. -/
theorem turns_admitted (calls : List ToolCall) (h : AllAdmitted out task scope b.calls) :
    AllAdmitted out task scope (turns out task scope calls b).batch.calls := by
  induction calls generalizing b with
  | nil => exact h
  | cons tc rest ih =>
    have hturn := turn_admitted tc h
    rw [turns]
    split
    · next b' heq =>
      rw [heq] at hturn
      exact ih hturn
    · exact hturn

theorem stubs_calls : (stubs out calls b).calls = b.calls := by
  induction calls generalizing b with
  | nil => rfl
  | cons tc rest ih =>
    rw [stubs]
    split
    · exact ih
    · rw [ih]
      rfl

theorem Turn.close_calls (t : Turn σ) : (t.close out calls).batch.calls = t.batch.calls := by
  cases t with
  | next | stop => exact stubs_calls
  | suspend | abort => rfl

/-- Every call of the handler was admitted under the task's scope. -/
theorem executeToolCalls_admitted {w : σ} {h : ChatHistory} :
    ∀ c ∈ (executeToolCalls out task w h).batch.calls,
      ∃ scope, executionToolsScope task.runtime out.supports task.config = .ok scope ∧
        ∃ w tc, Admitted out task scope w tc c.1 := by
  intro c hc
  have hcases := executeToolCalls_cases out task w h
  generalize executeToolCalls out task w h = o at hcases hc
  cases hcases with
  | idle | unscoped => cases hc
  | @worked scope hscope calls answered =>
    have hstart : AllAdmitted out task scope
        (⟨w, h, answered, none, false, []⟩ : Batch σ).calls := nofun
    rw [Turn.close_calls] at hc
    exact ⟨scope, hscope, turns_admitted calls hstart c hc⟩

end

/-! ## 4. What a task puts on record -/

section

variable {t task : TaskDefinition} {call : TaskCall} {w : Recorded σ}

/-- A tool is hidden by a task under its name in the toolset or under its namespaced name. -/
def HiddenBy (t : TaskDefinition) (call : ToolsCall) : Prop :=
  call.toolName ∈ executionHiddenTools t.config ∨
    call.name ++ "." ++ call.toolName ∈ executionHiddenTools t.config

/-- What may be said of a call a model asked for: it is made by a task that works off batches,
its toolset is granted in the chain and by the task's own list, if the task states one, and the
task does not hide it. -/
structure PermittedBy (c : RunConfig) (t : TaskDefinition) (call : ToolsCall) : Prop where
  handler : t.handler = .executeToolCalls ∨ t.handler = .chatCompletion
  granted : GrantedIn c.runtime c.tasks call.name
  own : ∀ cfg list, t.config = some cfg → cfg.tools = some list → Grants list call.name
  shown : ¬ HiddenBy t call

/-- A call of a `tools` task: it is the call of its block. -/
structure NamedByBlock (t : TaskDefinition) (call : ToolsCall) : Prop where
  handler : t.handler = .tools
  block : ∃ b, t.tools = some b ∧ call.name = b.name ∧ call.toolName = b.toolName

/-- An event on record is accounted for by a task of the chain. -/
def EventOk (c : RunConfig) (e : ToolEvent) : Prop :=
  ∃ t ∈ c.tasks, e.task.id = t.id ∧
    ((e.byBlock = false ∧ PermittedBy c t e.call) ∨ (e.byBlock = true ∧ NamedByBlock t e.call))

/-- The table a run starts with. -/
def GoodTable (c : RunConfig) : Prop :=
  ∀ t ∈ c.tools, GrantedIn c.runtime c.tasks t.toolsName

/-- A call the interpreter makes for a task of the chain. -/
structure CallFor (c : RunConfig) (t : TaskDefinition) (call : TaskCall) : Prop where
  id : call.task.id = t.id
  handler : call.task.handler = t.handler
  config : call.task.config = t.config
  tools : call.task.tools = t.tools
  runtime : call.runtime = c.runtime
  table : call.tools = c.tools

/-- A task that stands for `t` in a batch: the same, or with an empty config added. -/
structure StandsFor (t task : TaskDefinition) : Prop where
  id : task.id = t.id
  tools : task.config.bind (·.tools) = t.config.bind (·.tools)
  hidden : executionHiddenTools task.config = executionHiddenTools t.config

theorem standsFor_withConfig (h : StandsFor t task) : StandsFor t (withConfig task) := by
  refine ⟨h.id, ?_, ?_⟩
  · rw [← h.tools]
    cases hc : task.config <;> simp [withConfig, hc]
  · rw [← h.hidden]
    cases hc : task.config <;> simp [withConfig, hc, executionHiddenTools]

/-- The calls of a batch are permitted to its task. -/
theorem runBatch_events (hd : Handlers σ α ρ) (h : ChatHistory) (htable : GoodTable c)
    (hcall : CallFor c t call) (ht : t ∈ c.tasks) (hstands : StandsFor t task)
    (hhandler : t.handler = .executeToolCalls ∨ t.handler = .chatCompletion)
    (hw : ∀ e ∈ w.2, EventOk c e) : ∀ e ∈ (runBatch hd w call task h).1.2, EventOk c e := by
  intro e he
  rcases List.mem_append.mp he with he | he
  · exact hw e he
  obtain ⟨cl, hcl, rfl⟩ := List.mem_map.mp he
  obtain ⟨scope, hscope, w', tc, adm⟩ := executeToolCalls_admitted cl hcl
  obtain ⟨tool, htool, hname, htoolName, hhid, hallowed⟩ := adm.tool
  have hmem : tool ∈ c.tools := by
    rw [← hcall.table]
    exact hd.table_sub _ _ _ htool
  refine ⟨t, ht, hstands.id, .inl ⟨rfl, hhandler, ?_, ?_, ?_⟩⟩
  · rw [hname]
    exact htable tool hmem
  · intro cfg list hcfg hlist
    have hbind : task.config.bind (·.tools) = some list := by
      rw [hstands.tools, hcfg]
      exact hlist
    unfold executionToolsScope at hscope
    rw [show (toolTask call task).config.bind (·.tools) = some list from hbind] at hscope
    dsimp only at hscope
    cases hnames : resolveToolsNames (toolTask call task).runtime list
        (hd.outside call.tools).supports with
    | error err => rw [hnames] at hscope; cases hscope
    | ok names =>
      rw [hnames] at hscope
      cases hscope
      rw [hname]
      exact (grants_of_resolveToolsNames hnames (hallowed names rfl)).1
  · unfold HiddenBy
    rw [← hstands.hidden, hname, htoolName]
    simp only [isExecutionToolHidden, Bool.or_eq_false_iff, List.contains_eq_mem,
      decide_eq_false_iff_not] at hhid
    exact not_or.mpr ⟨hhid.1.2, hhid.2⟩

variable {ck : Checks}

/-- An accepted `tools` task has a block. -/
theorem block_of_validateChain {tasks : List TaskDefinition} (h : validateChain ck tasks = none)
    (ht : t ∈ tasks) (hhandler : t.handler = .tools) : ∃ b, t.tools = some b := by
  have hcheck := checkTask_of_validateChain h ht
  unfold checkTask at hcheck
  rw [hhandler] at hcheck
  cases htools : t.tools with
  | none => simp [htools] at hcheck
  | some b => exact ⟨b, rfl⟩

theorem ChatSpec.record {p : Recorded σ × TaskResult} (h : ChatSpec hd w call p) : p.1.2 = w.2 := by
  cases h with
  | refused | failed | answered => rfl

/-- A task keeps every event on record accounted for. -/
theorem taskExec_events (hval : validateChain ck c.tasks = none) (htable : GoodTable c)
    (hcall : CallFor c t call) (ht : t ∈ c.tasks) (hw : ∀ e ∈ w.2, EventOk c e) :
    ∀ e ∈ (taskExec hd w call).1.2, EventOk c e := by
  have hstands : StandsFor t call.task :=
    ⟨hcall.id, by rw [hcall.config], by rw [hcall.config]⟩
  have hflush : call.task.handler = .chatCompletion → ∀ h,
      ∀ e ∈ (runBatch hd w call (withConfig call.task) h).1.2, EventOk c e :=
    fun handler h => runBatch_events hd h htable hcall ht (standsFor_withConfig hstands)
      (.inr (hcall.handler ▸ handler)) hw
  have hspec := taskExec_spec hd w call
  generalize taskExec hd w call = p at hspec
  cases hspec with
  | refused | declined | noop | routeFails | routes => exact hw
  | completes _ chat =>
    rw [chat.record]
    exact hw
  | flushFails handler | flushWaits handler => exact hflush handler _
  | flushes handler _ chat =>
    rw [chat.record]
    exact hflush handler _
  | batch handler =>
    exact runBatch_events hd _ htable hcall ht hstands (.inl (hcall.handler ▸ handler)) hw
  | blockFails handler | blockWaits handler | blockRuns handler =>
    intro e he
    rcases List.mem_append.mp he with he | he
    · exact hw e he
    rw [List.mem_singleton.mp he]
    rw [hcall.handler] at handler
    obtain ⟨b, hb⟩ := block_of_validateChain hval ht handler
    exact ⟨t, ht, hcall.id, .inr ⟨rfl, handler, b, hb, by simp [blockCall, hcall.tools, hb]⟩⟩

end

/-! ## 5. Runs -/

section

variable {W : Type} {out : EnvOutside (Recorded σ)} {m : Memory} {task : TaskDefinition}
  {input : Typed} {retry : Nat} {w : W} {r : Run (Recorded σ)}

def Move.world {W : Type} : Move W → W
  | .next r => r.world
  | .finished w _ => w
  | .parked p => p.world

theorem Follows.world {out : EnvOutside W} {res : TaskResult} {mv : Move W}
    (h : Follows out c m task input retry w res mv) : mv.world = w := by
  cases h with
  | ends | finishes | goesOn | retries | failsOver | waits => rfl

/-- A step leaves the world alone, or leaves it as one call of the executor does. -/
theorem step_world (out : EnvOutside W) (c : RunConfig)
    (exec : W → TaskCall → W × TaskResult) (r : Run W) :
    (step out c exec r).world = r.world ∨ ∃ input retry, (step out c exec r).world =
        (exec r.world (taskCall out c r.mem r.phase.task input retry)).1 := by
  have hspec := step_spec out c exec r
  generalize step out c exec r = mv at hspec
  cases hspec with
  | ends | enters => exact .inl rfl
  | attempts made follows => exact .inr ⟨_, _, follows.world.trans (congrArg Prod.fst made).symm⟩

/-- The beginning of an invocation of the engine, fresh or on a checkpoint, with nothing on
record. -/
inductive Begins (out : EnvOutside (Recorded σ)) (c : RunConfig) (r : Run (Recorded σ)) : Prop
  | start {reg : Registry} {c₀ : RunConfig} {s : σ} {input : Typed}
      (h : startRun out reg c₀ (s, []) input = .ok (c, r))
  | resume {reg : Registry} {c₀ : RunConfig} {cp : Checkpoint} {s : σ}
      (h : resumeRun out reg c₀ cp (s, []) = .ok (c, r))

theorem begins_spec (h : Begins out c r) :
    validateChain out.checks c.tasks = none ∧ GoodTable c ∧ Placed c r.phase.task r.mem ∧
      r.world.2 = [] := by
  have hempty : ∀ t ∈ ([] : List ToolWithResolution), GrantedIn c.runtime c.tasks t.toolsName := by
    intro t ht
    cases ht
  cases h with
  | start h =>
    obtain ⟨hval, hp⟩ := startRun_placed h
    obtain ⟨-, first, rest, acc, -, hacc, rfl, rfl⟩ := startRun_ok h
    exact ⟨hval, collectTools_spec hacc (fun _ ht => ht) hempty, hp, rfl⟩
  | @resume reg c₀ cp s h =>
    obtain ⟨hval, task, acc, htask, hacc, rfl, rfl⟩ := resumeRun_ok h
    refine ⟨hval, collectTools_spec hacc (fun _ ht => ht) hempty, ⟨findTaskByID_id htask, ?_⟩, rfl⟩
    unfold restoreVars
    cases hin : cp.vars.lookup "input" with
    | none => simp [List.lookup_append, hin]
    | some v => simp [hin]

/-- **Every step makes permitted calls only.** -/
theorem step_events (hd : Handlers σ α ρ) (hval : validateChain out.checks c.tasks = none)
    (htable : GoodTable c) (hp : Placed c r.phase.task r.mem) (hr : ∀ e ∈ r.world.2, EventOk c e) :
    ∀ e ∈ (step out c (taskExec hd) r).world.2, EventOk c e := by
  rcases step_world out c (taskExec hd) r with heq | ⟨input, retry, heq⟩
  · rw [heq]
    exact hr
  · rw [heq]
    exact taskExec_events (t := r.phase.task) hval htable ⟨rfl, rfl, rfl, rfl, rfl, rfl⟩
      (findTaskByID_mem hp.found).1 hr

/-- **Every call of a run is accounted for.**  In whatever state an invocation of the engine
reaches, and in whatever its next step leaves, each call handed to the provider was made by a
task of the chain.  If a model asked for it, its toolset is granted by the run's allowlist, by
some task of the chain and by the executing task's own list where it states one, and the task
does not hide it; otherwise it is the call a `tools` task's block names. -/
theorem run_calls_permitted (hd : Handlers σ α ρ) {r r' : Run (Recorded σ)}
    (hbegin : Begins out c r)
    (hreach : Relation.ReflTransGen (fun a b => step out c (taskExec hd) a = .next b) r r') :
    (∀ e ∈ r'.world.2, EventOk c e) ∧
      ∀ e ∈ (step out c (taskExec hd) r').world.2, EventOk c e := by
  obtain ⟨hval, htable, hp, hempty⟩ := begins_spec hbegin
  have hinv : Placed c r'.phase.task r'.mem ∧ ∀ e ∈ r'.world.2, EventOk c e := by
    induction hreach with
    | refl =>
      refine ⟨hp, ?_⟩
      rw [hempty]
      intro e he
      cases he
    | @tail a b _ hstep ih =>
      have hplaced := step_placed out (taskExec hd) ih.1
      have hevents := step_events hd hval htable ih.1 ih.2
      rw [hstep] at hplaced hevents
      cases hplaced with
      | next hp' => exact ⟨hp', hevents⟩
  exact ⟨hinv.2, step_events hd hval htable hinv.1 hinv.2⟩

end

/-! ## 6. A chain that shows both -/

def quietHandlers : Handlers Unit Unit String := textHandlers fun w _ _ => (w, .done "ok")

/-- A task of a chain that only says what it runs and what it is granted. -/
def bareTask (id : String) (handler : TaskHandler) (config : Option ExecuteConfig)
    (tools : Option ToolsBlock) : TaskDefinition where
  id := id
  handler := handler
  systemInstruction := ""
  promptTemplate := ""
  outputTemplate := ""
  print := ""
  inputVar := ""
  inputMaxBytes := 0
  timeout := ""
  retryOnFailure := 0
  config := config
  policies := []
  tools := tools
  transition := ⟨"", []⟩

/-- The first task states no list; the second is granted the toolset and never runs. -/
def looseChain (runtime : RuntimeAllowlist) (first : TaskDefinition) : RunConfig :=
  ⟨"chain", [first, bareTask "chat" .noop (some ⟨some ["fs"], []⟩) none], 0, 4096, 0, runtime,
    if runtime = .listed [] then [] else [⟨"fs.read", "fs"⟩]⟩

def readTranscript : Typed :=
  (.history ⟨[⟨.assistant, "", "", [⟨"a", "fs.read", ""⟩]⟩], 0, 0⟩, .chatHistory)

def looseRun (task : TaskDefinition) : Run (Recorded Unit) :=
  ⟨((), []), ⟨[("input", readTranscript)], [], readTranscript, none, false⟩,
    .attempting task readTranscript 0⟩

def looseStart (task : TaskDefinition) : Run (Recorded Unit) :=
  ⟨((), []), ⟨[("input", readTranscript)], [], readTranscript, none, false⟩,
    .entering task false⟩

def listless : TaskDefinition := bareTask "run_tools" .executeToolCalls none none

def readBlock : TaskDefinition := bareTask "read" .tools none (some ⟨"fs", "read", []⟩)

/-- A task without a list executes a tool that only another task was granted, and a `tools` task
executes its tool under an allowlist that denies every toolset. -/
theorem listless_task_executes :
    (startRun plainEnv fsRegistry (looseChain .detached listless) ((), []) readTranscript =
        .ok (looseChain .detached listless, looseStart listless) ∧
      step plainEnv (looseChain .detached listless) (taskExec quietHandlers)
        (looseStart listless) = .next (looseRun listless) ∧
      ∃ e ∈ (step plainEnv (looseChain .detached listless) (taskExec quietHandlers)
          (looseRun listless)).world.2,
        e.call.name = "fs" ∧ e.task.config = none) ∧
    startRun plainEnv fsRegistry (looseChain (.listed []) readBlock) ((), []) readTranscript =
        .ok (looseChain (.listed []) readBlock, looseStart readBlock) ∧
      step plainEnv (looseChain (.listed []) readBlock) (taskExec quietHandlers)
        (looseStart readBlock) = .next (looseRun readBlock) ∧
      ∃ e ∈ (step plainEnv (looseChain (.listed []) readBlock) (taskExec quietHandlers)
          (looseRun readBlock)).world.2,
        e.call.name = "fs" ∧ ¬ (RuntimeAllowlist.listed []).Grants e.call.name := by
  refine ⟨⟨by rfl, by rfl, _, List.mem_singleton_self _, by rfl, by rfl⟩,
    by rfl, by rfl, _, List.mem_singleton_self _, by rfl, ?_⟩
  rintro ⟨-, h | ⟨h, -⟩⟩
  · cases h
  · cases h

/-- The call of the task without a list is accounted for all the same. -/
theorem run_calls_permitted_listless :
    ∃ e ∈ (step plainEnv (looseChain .detached listless) (taskExec quietHandlers)
        (looseRun listless)).world.2,
      e.call.toolName = "read" ∧ EventOk (looseChain .detached listless) e := by
  have hstart : startRun plainEnv fsRegistry (looseChain .detached listless) ((), [])
      readTranscript = .ok (looseChain .detached listless, looseStart listless) := by rfl
  have hstep : step plainEnv (looseChain .detached listless) (taskExec quietHandlers)
      (looseStart listless) = .next (looseRun listless) := by rfl
  have hall := (run_calls_permitted quietHandlers (.start hstart) (.single hstep)).2
  exact ⟨_, List.mem_singleton_self _, by rfl, hall _ (List.mem_singleton_self _)⟩

end Contenox.Engine
