/-
# Which tools a task may call

A chain names toolsets, task by task, in `execute_config.tools`; the caller of a run may attach
an allowlist of its own.  Before the first task runs, the engine collects the tools of every
task's permitted toolsets into ONE table, and a tool call of the model is resolved against that
table by name.  What keeps one task from calling the tools of another is then checked call by
call: the executing task's scope and its hidden names.

The table is a Go map.  Where the source iterates over it the order is not determined, so it is
a list here, in the order of the iteration at hand, and nothing below depends on which it is.
-/
import Contenox.Lib.GoStrings
import Mathlib.Data.List.Nodup

namespace Contenox.Engine

open Lib GoStrings

/-! ## 1. Allowlists -/

/-- `strings.TrimPrefix`. -/
def trimPrefix (s lead : String) : String :=
  if hasPrefix s lead then String.ofList (s.toList.drop lead.toList.length) else s

/-- `applyAllowlist`: the toolsets of `all` that an allowlist lets through.  An exclusion wins
over a star, wherever it stands. -/
def applyAllowlist (allowlist all : List String) : List String :=
  let excluded := (allowlist.filter fun e => e ≠ "*" && hasPrefix e "!").map (trimPrefix · "!")
  let exact := allowlist.filter fun e => e ≠ "*" && !hasPrefix e "!"
  if allowlist = [] then []
  else all.filter fun name =>
    !excluded.contains name && (allowlist.contains "*" || exact.contains name)

/-- The allowlist attached to a run: none, a nil one (no restriction), or a list. -/
inductive RuntimeAllowlist
  | detached
  | unrestricted
  | listed (names : List String)
  deriving DecidableEq, Repr

/-- The toolsets of `all` a runtime allowlist permits. -/
def RuntimeAllowlist.permits (runtime : RuntimeAllowlist) (all : List String) (name : String) :
    Prop :=
  match runtime with
  | .detached | .unrestricted => True
  | .listed names => name ∈ applyAllowlist names all

/-- `resolveToolsNames`, with the answer of the provider's `Supports`. -/
def resolveToolsNames (runtime : RuntimeAllowlist) (allowlist : List String)
    (supports : Except String (List String)) : Except String (List String) :=
  match supports with
  | .error e => .error e
  | .ok all =>
    let taskSet := applyAllowlist allowlist all
    match runtime with
    | .detached | .unrestricted => .ok taskSet
    | .listed names => .ok (taskSet.filter fun n => (applyAllowlist names all).contains n)

theorem mem_resolveToolsNames {runtime : RuntimeAllowlist} {allowlist all names : List String}
    {n : String} (h : resolveToolsNames runtime allowlist (.ok all) = .ok names) (hn : n ∈ names) :
    n ∈ applyAllowlist allowlist all ∧ runtime.permits all n := by
  cases runtime with
  | detached | unrestricted =>
    cases h
    exact ⟨hn, trivial⟩
  | listed list =>
    cases h
    rw [List.mem_filter] at hn
    exact ⟨hn.1, by simpa [RuntimeAllowlist.permits] using hn.2⟩

/-! ## 2. The table of a chain's tools, and how a name is resolved -/

/-- `ToolWithResolution`: a tool under its namespaced name, and the toolset it is of. -/
structure ToolWithResolution where
  functionName : String
  toolsName : String
  deriving DecidableEq, Repr

/-- `resolveToolWithResolution`.  `tools` is the table, keyed by namespaced name, in the order in
which this call iterates over it.  The last search counts its matches, so that its own order
does not matter. -/
def resolveToolWithResolution (tools : List ToolWithResolution) (toolName : String) :
    Option ToolWithResolution :=
  match tools.find? fun t => t.functionName = toolName with
  | some t => some t
  | none =>
    match tools.find? fun t => t.functionName = toolName || t.toolsName = toolName with
    | some t => some t
    | none =>
      if contains toolName "." then none
      else
        match tools.filter fun t => trimPrefix t.functionName (t.toolsName ++ ".") = toolName with
        | [t] => some t
        | _ => none

theorem mem_of_resolveToolWithResolution {tools : List ToolWithResolution} {name : String}
    {t : ToolWithResolution} (h : resolveToolWithResolution tools name = some t) : t ∈ tools := by
  unfold resolveToolWithResolution at h
  split at h
  · next hfind =>
    cases h
    exact List.mem_of_find?_eq_some hfind
  · split at h
    · next hfind =>
      cases h
      exact List.mem_of_find?_eq_some hfind
    · split at h
      · cases h
      split at h
      · next hfilter =>
        cases h
        have hmem := List.mem_singleton_self t
        rw [← hfilter] at hmem
        exact (List.mem_filter.mp hmem).1
      · cases h

/-! ## 3. What the executing task says -/

/-- The part of `LLMExecutionConfig` that execution of tool calls reads.  `tools = none` is the
nil list. -/
structure ExecuteConfig where
  tools : Option (List String)
  hideTools : List String
  deriving DecidableEq, Repr

/-- `executionToolsScope`: the toolsets a task may execute, or `none` where it states no list. -/
def executionToolsScope (runtime : RuntimeAllowlist) (supports : Except String (List String))
    (config : Option ExecuteConfig) : Except String (Option (List String)) :=
  match config.bind (·.tools) with
  | none => .ok none
  | some list => (resolveToolsNames runtime list supports).map some

def executionHiddenTools (config : Option ExecuteConfig) : List String :=
  match config with
  | none => []
  | some c => (c.hideTools.map trimSpace).filter (· ≠ "")

/-- `isExecutionToolHidden`: a tool is hidden under the name of the call, under its resolved
name, under its leaf and under its namespaced leaf. -/
def isExecutionToolHidden (hidden : List String) (toolName : String) (t : ToolWithResolution) :
    Bool :=
  let leaf := trimPrefix toolName (t.toolsName ++ ".")
  hidden.contains toolName || hidden.contains t.functionName || hidden.contains leaf ||
    hidden.contains (t.toolsName ++ "." ++ leaf)

/-! ## 4. Which names mean one tool -/

section

variable {tools tools' : List ToolWithResolution} {name : String} {t : ToolWithResolution}

/-- A tool that the name may stand for: it is the full name, or else the toolset's, or else what the
toolset calls the tool. -/
def MayMean (tools : List ToolWithResolution) (name : String) (t : ToolWithResolution) : Prop :=
  t ∈ tools ∧ (t.functionName = name ∨ name ∉ tools.map (·.functionName) ∧
    (t.toolsName = name ∨ name ∉ tools.map (·.toolsName) ∧ contains name "." = false ∧
      trimPrefix t.functionName (t.toolsName ++ ".") = name))

/-- The name is a key of the table, or at most one tool is of a toolset of that name. -/
def Unambiguous (tools : List ToolWithResolution) (name : String) : Prop :=
  name ∈ tools.map (·.functionName) ∨
    ∀ t ∈ tools, ∀ t' ∈ tools, t.toolsName = name → t'.toolsName = name → t = t'

theorem some_iff_only {P : ToolWithResolution → Prop} (h : P t) :
    (∀ u, some t = some u ↔ P u ∧ ∀ v, P v → v = u) ↔ ∀ v, P v → v = t := by
  refine ⟨fun hall => ((hall t).mp rfl).2, fun hall u => ⟨fun heq => ?_, fun hu => ?_⟩⟩
  · cases heq
    exact ⟨h, hall⟩
  · rw [hall u hu.1]

/-- In a table with one tool to a name, for the order at hand. -/
theorem resolve_eq_some_iff (hkeys : (tools.map (·.functionName)).Nodup) :
    (∀ t, resolveToolWithResolution tools name = some t ↔
        MayMean tools name t ∧ ∀ u, MayMean tools name u → u = t) ↔ Unambiguous tools name := by
  unfold resolveToolWithResolution
  split
  · next t hfind =>
    have hname : t.functionName = name := by simpa using List.find?_some hfind
    have hmem := List.mem_of_find?_eq_some hfind
    have hkey : name ∈ tools.map (·.functionName) := List.mem_map.mpr ⟨t, hmem, hname⟩
    rw [some_iff_only ⟨hmem, .inl hname⟩]
    refine iff_of_true (fun u hu => ?_) (.inl hkey)
    exact List.inj_on_of_nodup_map hkeys hu.1 hmem
      ((hu.2.resolve_right fun h => h.1 hkey).trans hname.symm)
  next hnone =>
  have hnot : ∀ t ∈ tools, t.functionName ≠ name := by simpa using hnone
  have hkey : name ∉ tools.map (·.functionName) := by simpa using hnot
  split
  · next t hfind =>
    have hmem := List.mem_of_find?_eq_some hfind
    have hname : t.toolsName = name := by simpa [hnot t hmem] using List.find?_some hfind
    have hset : name ∈ tools.map (·.toolsName) := List.mem_map.mpr ⟨t, hmem, hname⟩
    rw [some_iff_only ⟨hmem, .inr ⟨hkey, .inl hname⟩⟩]
    constructor
    · intro h
      refine .inr fun u hu v hv hun hvn => ?_
      exact (h u ⟨hu, .inr ⟨hkey, .inl hun⟩⟩).trans (h v ⟨hv, .inr ⟨hkey, .inl hvn⟩⟩).symm
    · intro h u hu
      have hun := (hu.2.resolve_left (hnot u hu.1)).2.resolve_right fun h => h.1 hset
      exact h.resolve_left hkey u hu.1 t hmem hun hname
  next hnone' =>
  have hother : ∀ t ∈ tools, t.toolsName ≠ name := by
    intro t ht
    simpa [hnot t ht] using List.find?_eq_none.mp hnone' t ht
  have hset : name ∉ tools.map (·.toolsName) := by simpa using hother
  refine iff_of_true (fun t => ?_) (.inr fun t ht _ _ h => absurd h (hother t ht))
  have hmean (t) : MayMean tools name t ↔ t ∈ tools ∧ contains name "." = false ∧
      trimPrefix t.functionName (t.toolsName ++ ".") = name := by
    refine and_congr_right fun ht => ?_
    simp [hnot t ht, hother t ht, hkey, hset]
  simp only [hmean]
  split
  · next hdot => simp [hdot]
  next hdot =>
  -- a list without repetitions whose members are all `t` is `[t]`
  have hone := List.perm_ext_iff_of_nodup (hkeys.of_map.filter fun u =>
    trimPrefix u.functionName (u.toolsName ++ ".") = name) (List.nodup_singleton t)
  simp only [List.perm_singleton, List.mem_filter, decide_eq_true_eq, List.mem_singleton] at hone
  simp only [hdot, true_and]
  refine Iff.trans ?_ (hone.trans ⟨fun h => ⟨(h t).mpr rfl, fun u => (h u).mp⟩,
    fun h u => ⟨h.2 u, fun hu => hu ▸ h.1⟩⟩)
  split
  · next u hl => simp [hl]
  · next hl => exact iff_of_false nofun (hl t)

/-- **Which names are resolved to the tool they mean**: in whatever order the table is iterated, a tool
is returned exactly if it is the only one that the name may stand for, when the name is the full name
of a tool or at most one tool is of a toolset of that name; and only then. -/
theorem resolve_any_order_iff (hkeys : (tools.map (·.functionName)).Nodup) :
    (∀ tools', tools.Perm tools' → ∀ t, resolveToolWithResolution tools' name = some t ↔
        MayMean tools name t ∧ ∀ t', MayMean tools name t' → t' = t) ↔ Unambiguous tools name := by
  refine ⟨fun h => (resolve_eq_some_iff hkeys).mp (h tools (.refl _)), fun hone tools' hperm => ?_⟩
  have hnames := hperm.map (·.functionName)
  have hmean (t) : MayMean tools' name t ↔ MayMean tools name t := by
    simp only [MayMean, hperm.mem_iff, hnames.mem_iff, (hperm.map (·.toolsName)).mem_iff]
  simp only [← hmean]
  refine (resolve_eq_some_iff (hnames.nodup_iff.mp hkeys)).mpr ?_
  simpa only [Unambiguous, hperm.mem_iff, hnames.mem_iff] using hone

/-- Of a toolset with two tools the name finds the one that is iterated first. -/
theorem toolset_name_either :
    resolveToolWithResolution [⟨"fs.read", "fs"⟩, ⟨"fs.write", "fs"⟩] "fs" = some ⟨"fs.read", "fs"⟩ ∧
      resolveToolWithResolution [⟨"fs.write", "fs"⟩, ⟨"fs.read", "fs"⟩] "fs" =
        some ⟨"fs.write", "fs"⟩ := by
  decide

theorem resolve_any_order_iff_two :
    MayMean [⟨"fs.read", "fs"⟩, ⟨"fs.write", "fs"⟩] "read" ⟨"fs.read", "fs"⟩ :=
  (((resolve_any_order_iff (by decide)).mpr (.inr (by decide)) [⟨"fs.write", "fs"⟩, ⟨"fs.read", "fs"⟩]
    (.swap _ _ _) _).mp (by decide)).1

end

end Contenox.Engine
