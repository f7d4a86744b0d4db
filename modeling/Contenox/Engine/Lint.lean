/-
# The chain linter

Before a chain is used, the linter computes for every task which types of values can be routed
into it and which variables can be stored when it starts.  It does so by passes over the tasks
until a pass changes nothing, and then reports what can never work: a variable no task before
produces, a handler that accepts none of the types that come, a branch no transition value picks.

A visit of a task is a list of demands on the linter's sets (`demands`), each met by enlarging a
set.  The sets live in a finite universe, the names and types of the chain, so the passes come
to an end (`lint_terminates`), and what they end with meets every demand (`Closed`).
-/
import Mathlib.Algebra.Order.BigOperators.Group.Finset
import Contenox.Lib.Fixpoint
import Contenox.Engine.Signatures

namespace Contenox.Engine

open Lib GoStrings

/-! ## 1. The linter's sets -/

/-- `chainLinter`: for a task the types routed into it and the variables stored before it, for a
variable its types, and the tasks that can be reached. -/
structure Lint where
  inSets : String → DtSet
  varSets : String → DtSet
  avail : String → Finset String
  reachable : Finset String

/-- What the caller says it feeds; nothing said is any. -/
def entrySet (entryTypes : List DataType) : DtSet :=
  if entryTypes = [] then {.any} else entryTypes.toFinset

def newChainLinter (first : TaskDefinition) (entry : DtSet) : Lint where
  inSets := Function.update (fun _ => ∅) first.id entry
  varSets := Function.update (fun _ => ∅) "input" entry
  avail := Function.update (fun _ => ∅) first.id {"input"}
  reachable := {first.id}

def effectiveInput (l : Lint) (t : TaskDefinition) : DtSet :=
  if trimSpace t.promptTemplate ≠ "" then {.string}
  else if t.inputVar ≠ "" then l.varSets t.inputVar
  else l.inSets t.id

def successOut (l : Lint) (t : TaskDefinition) : DtSet :=
  let sig := handlerSignatures t.handler
  match sig.mode with
  | .fixed => {sig.output}
  | .passthrough => effectiveInput l t
  | .dynamic => if trimSpace t.outputTemplate ≠ "" then {.string} else {.any}
  | .none => ∅

def failureOut (l : Lint) (t : TaskDefinition) : DtSet := effectiveInput l t ∪ successOut l t

def targetsFrom (seen : List String) : List TransitionBranch → List String
  | [] => []
  | b :: bs =>
    if b.goto = "" ∨ b.goto = termEnd ∨ b.goto ∈ seen then targetsFrom seen bs
    else b.goto :: targetsFrom (b.goto :: seen) bs

/-- `successTargets`: where the branches lead, each task once. -/
def successTargets (t : TaskDefinition) : List String := targetsFrom [] t.transition.branches

theorem mem_targetsFrom {seen : List String} {bs : List TransitionBranch} {g : String} :
    g ∈ targetsFrom seen bs ↔ g ∉ seen ∧ g ≠ "" ∧ g ≠ termEnd ∧ ∃ b ∈ bs, b.goto = g := by
  induction bs generalizing seen with
  | nil => simp [targetsFrom]
  | cons b bs ih =>
    unfold targetsFrom
    rw [List.exists_mem_cons_iff]
    split
    · rename_i hskip
      have hother : g ∉ seen → g ≠ "" → g ≠ termEnd → b.goto ≠ g := by
        rintro h1 h2 h3 rfl
        exact hskip.elim h2 (·.elim h3 h1)
      rw [ih]
      tauto
    · rename_i hkeep
      rw [List.mem_cons, ih, List.mem_cons]
      by_cases hg : g = b.goto
      · subst hg
        tauto
      · have hg' := Ne.symm hg
        tauto

/-! ## 2. Demands on the sets -/

/-- What a visit asks of the sets.  The variables of `src` are read when the demand is met. -/
inductive Demand
  | var (name : String) (types : DtSet)
  | input (id : String) (types : DtSet)
  | avail (id src : String) (extra : Finset String)
  | reach (id : String)

def Demand.Holds (l : Lint) : Demand → Prop
  | .var name types => types ⊆ l.varSets name
  | .input id types => types ⊆ l.inSets id
  | .avail id src extra => l.avail src ∪ extra ⊆ l.avail id
  | .reach id => id ∈ l.reachable

instance (l : Lint) : (d : Demand) → Decidable (d.Holds l)
  | .var name types => inferInstanceAs (Decidable (types ⊆ l.varSets name))
  | .input id types => inferInstanceAs (Decidable (types ⊆ l.inSets id))
  | .avail id src extra => inferInstanceAs (Decidable (l.avail src ∪ extra ⊆ l.avail id))
  | .reach id => inferInstanceAs (Decidable (id ∈ l.reachable))

/-- The sets enlarged as the demand asks. -/
def Demand.perform (l : Lint) : Demand → Lint
  | .var name types =>
    { l with varSets := Function.update l.varSets name (l.varSets name ∪ types) }
  | .input id types => { l with inSets := Function.update l.inSets id (l.inSets id ∪ types) }
  | .avail id src extra =>
    { l with avail := Function.update l.avail id (l.avail id ∪ (l.avail src ∪ extra)) }
  | .reach id => { l with reachable := insert id l.reachable }

/-- `growVar`, `growIn`, `growAvail` and the mark of a reached task: the sets and whether
anything has changed. -/
def Demand.meet (w : Lint × Bool) (d : Demand) : Lint × Bool :=
  if d.Holds w.1 then w else (d.perform w.1, true)

/-- What one edge asks for. -/
def feed (src dst : String) (types : DtSet) (extra : Finset String) : List Demand :=
  [.input dst types, .avail dst src extra, .reach dst]

/-- What the visit of a task asks for, in the order of the loop's body. -/
def demands (l : Lint) (t : TaskDefinition) : List Demand :=
  let sOut := successOut l t
  let fOut := failureOut l t
  let f := t.transition.onFailure
  [.var t.id sOut, .var "previous_output" sOut] ++
  (if f ≠ "" then
    [.var t.id fOut, .var "previous_output" fOut, .var "last_error" {.string},
      .var (t.id ++ "_error") {.string}]
   else []) ++
  (if sOut ≠ ∅ then
    (successTargets t).flatMap fun g => feed t.id g sOut {t.id, "previous_output"}
   else []) ++
  (if f ≠ "" then
    feed t.id f fOut {t.id, "previous_output", "last_error", t.id ++ "_error"}
   else [])

/-- The body of the inner loop. -/
def visit (w : Lint × Bool) (t : TaskDefinition) : Lint × Bool :=
  if t.id ∈ w.1.reachable then (demands w.1 t).foldl Demand.meet w else w

variable (tasks : List TaskDefinition)

/-- One pass over the tasks. -/
def pass (l : Lint) : Lint × Bool := tasks.foldl visit (l, false)

/-- The names of the chain: its tasks, their errors, and the engine's own variables. -/
def chainNames : Finset String :=
  {"input", "previous_output", "last_error"} ∪ (tasks.map (·.id)).toFinset ∪
    (tasks.map (·.id ++ "_error")).toFinset

/-- More than there are facts about the chain to find out. -/
def factBound : Nat :=
  (chainNames tasks).card * 6 + tasks.length * 6 + tasks.length * (chainNames tasks).card +
    tasks.length

def propagate (l : Lint) : Option Lint :=
  Fixpoint.iterate (pass tasks) (factBound tasks + 1) l

/-- The sets the linter ends with. -/
def lint (entryTypes : List DataType) : Option Lint :=
  match tasks with
  | [] => none
  | first :: _ => propagate tasks (newChainLinter first (entrySet entryTypes))

/-! ## 3. Meeting demands -/

variable {w : Lint × Bool} {d : Demand}

theorem Demand.meet_eq (h : (d.meet w).2 = false) : d.meet w = w ∧ d.Holds w.1 := by
  unfold Demand.meet at h ⊢
  split at h
  · rename_i hd
    exact ⟨if_pos hd, hd⟩
  · cases h

/-- Every demand of every reached task is met. -/
def Closed (l : Lint) : Prop :=
  ∀ t ∈ tasks, t.id ∈ l.reachable → ∀ d ∈ demands l t, d.Holds l

/-- A visit that changes nothing has nothing left to demand. -/
theorem visit_eq {t : TaskDefinition} (h : (visit w t).2 = false) :
    visit w t = w ∧ (t.id ∈ w.1.reachable → ∀ d ∈ demands w.1 t, d.Holds w.1) := by
  unfold visit at h ⊢
  split
  · rename_i hreach
    rw [if_pos hreach] at h
    obtain ⟨heq, hall⟩ := Fixpoint.foldl_unchanged (Q := fun d l => d.Holds l)
      (fun _ _ => Demand.meet_eq) h
    exact ⟨heq, fun _ => hall⟩
  · exact ⟨rfl, fun hreach => absurd hreach ‹_›⟩

variable {tasks : List TaskDefinition} {l : Lint}

/-- A pass that reports no change has changed nothing, and the sets are closed. -/
theorem pass_eq (h : (pass tasks l).2 = false) : (pass tasks l).1 = l ∧ Closed tasks l := by
  obtain ⟨heq, hclosed⟩ := Fixpoint.foldl_unchanged
    (Q := fun t l => t.id ∈ l.reachable → ∀ d ∈ demands l t, d.Holds l) (fun _ _ => visit_eq) h
  exact ⟨by rw [pass, heq], hclosed⟩

/-! ## 4. The passes come to an end -/

instance : Fintype DataType where
  elems := {.any, .string, .int, .json, .chatHistory, .nil}
  complete dt := by cases dt <;> decide

section Facts

variable (N I : Finset String)

/-- How much the sets hold: types of the variables `N` and of the inputs of the tasks `I`,
variables of these tasks, and tasks that are reached. -/
def facts (l : Lint) : Nat :=
  ∑ n ∈ N, (l.varSets n).card + ∑ i ∈ I, (l.inSets i).card + ∑ i ∈ I, (l.avail i).card +
    l.reachable.card

/-- The variables are of `N` and the tasks of `I`. -/
structure Within (l : Lint) : Prop where
  avail : ∀ i, l.avail i ⊆ N
  reachable : l.reachable ⊆ I

/-- The demand is about variables of `N` and tasks of `I`. -/
def Demand.Inside : Demand → Prop
  | .var name _ => name ∈ N
  | .input id _ => id ∈ I
  | .avail id _ extra => id ∈ I ∧ extra ⊆ N
  | .reach id => id ∈ I

variable {N I} {l : Lint}

theorem facts_le (h : Within N I l) :
    facts N I l ≤ N.card * 6 + I.card * 6 + I.card * N.card + I.card := by
  have htypes : ∀ s : DtSet, s.card ≤ 6 := fun s => s.card_le_univ
  have hvars : ∑ n ∈ N, (l.varSets n).card ≤ N.card * 6 :=
    Finset.sum_le_card_nsmul N _ 6 fun n _ => htypes _
  have hins : ∑ i ∈ I, (l.inSets i).card ≤ I.card * 6 :=
    Finset.sum_le_card_nsmul I _ 6 fun i _ => htypes _
  have havail : ∑ i ∈ I, (l.avail i).card ≤ I.card * N.card :=
    Finset.sum_le_card_nsmul I _ N.card fun i _ => Finset.card_le_card (h.avail i)
  have hreach := Finset.card_le_card h.reachable
  unfold facts
  omega

/-- A map of sets enlarged at one place that did not hold all of it: the sum grows. -/
theorem sum_card_update_lt {β : Type} [DecidableEq β] {K : Finset String}
    {f : String → Finset β} {k : String} {s : Finset β} (hk : k ∈ K) (hs : ¬ s ⊆ f k) :
    ∑ n ∈ K, (f n).card < ∑ n ∈ K, (Function.update f k (f k ∪ s) n).card := by
  apply Finset.sum_lt_sum
  · intro n _
    by_cases hn : n = k
    · subst hn
      rw [Function.update_self]
      exact Finset.card_le_card Finset.subset_union_left
    · rw [Function.update_of_ne hn]
  · refine ⟨k, hk, ?_⟩
    rw [Function.update_self]
    apply Finset.card_lt_card
    refine ⟨Finset.subset_union_left, fun hsub => hs ?_⟩
    exact (Finset.subset_union_right).trans hsub

theorem Demand.perform_within (hd : d.Inside N I) (h : Within N I l) :
    Within N I (d.perform l) := by
  cases d with
  | var _ _ | input _ _ => exact ⟨h.avail, h.reachable⟩
  | avail id src extra =>
    refine ⟨fun i => ?_, h.reachable⟩
    by_cases hi : i = id
    · subst hi
      simp only [Demand.perform, Function.update_self]
      exact Finset.union_subset (h.avail i) (Finset.union_subset (h.avail src) hd.2)
    · simp only [Demand.perform, Function.update_of_ne hi]
      exact h.avail i
  | reach id => exact ⟨h.avail, Finset.insert_subset hd h.reachable⟩

/-- A demand that is met adds a fact. -/
theorem Demand.facts_lt_perform (hd : d.Inside N I) (hne : ¬ d.Holds l) :
    facts N I l < facts N I (d.perform l) := by
  cases d with
  | var name types | input id types =>
    have hlt := sum_card_update_lt hd hne
    simp only [facts, Demand.perform]
    omega
  | avail id src extra =>
    have hlt := sum_card_update_lt hd.1 hne
    simp only [facts, Demand.perform]
    omega
  | reach id =>
    have hcard := Finset.card_insert_of_notMem (show id ∉ l.reachable from hne)
    simp only [facts, Demand.perform]
    omega

/-- What a stretch of the loop does to the sets and the mark of a change. -/
structure Growth (N I : Finset String) (w w' : Lint × Bool) : Prop where
  within : Within N I w'.1
  le : facts N I w.1 ≤ facts N I w'.1
  lt : w'.2 = true → w.2 = true ∨ facts N I w.1 < facts N I w'.1

theorem Growth.trans {w' w'' : Lint × Bool} (h : Growth N I w w') (h' : Growth N I w' w'') :
    Growth N I w w'' := by
  refine ⟨h'.within, h.le.trans h'.le, fun hflag => ?_⟩
  rcases h'.lt hflag with hflag' | hlt
  · rcases h.lt hflag' with hflag | hlt
    · exact .inl hflag
    · exact .inr (lt_of_lt_of_le hlt h'.le)
  · exact .inr (lt_of_le_of_lt h.le hlt)

theorem Growth.refl (h : Within N I w.1) : Growth N I w w :=
  ⟨h, le_rfl, .inl⟩

theorem foldl_meet_growth {ds : List Demand} (hds : ∀ d ∈ ds, d.Inside N I) (h : Within N I w.1) :
    Growth N I w (ds.foldl Demand.meet w) := by
  refine List.foldlRecOn (motive := Growth N I w) ds _ (.refl h) fun w hw d hd => hw.trans ?_
  unfold Demand.meet
  split
  · exact .refl hw.within
  rename_i hne
  have hlt := Demand.facts_lt_perform (hds d hd) hne
  exact ⟨Demand.perform_within (hds d hd) hw.within, hlt.le, fun _ => .inr hlt⟩

/-- The demands of every task are about the chain's own names. -/
def Scoped (N I : Finset String) (tasks : List TaskDefinition) : Prop :=
  ∀ t ∈ tasks, ∀ l, ∀ d ∈ demands l t, d.Inside N I

/-- A pass that changes something adds a fact. -/
theorem pass_growth (hscoped : Scoped N I tasks) (h : Within N I l) :
    Growth N I (l, false) (pass tasks l) := by
  refine List.foldlRecOn (motive := Growth N I (l, false)) tasks _ (.refl h)
    fun w hw t ht => hw.trans ?_
  unfold visit
  split
  · exact foldl_meet_growth (hscoped t ht _) hw.within
  · exact .refl hw.within

end Facts

/-! ## 5. An accepted chain -/

section

variable {ck : Checks} {tasks : List TaskDefinition} {t first : TaskDefinition}

def chainIDs (tasks : List TaskDefinition) : Finset String := (tasks.map (·.id)).toFinset

theorem mem_chainIDs {id : String} : id ∈ chainIDs tasks ↔ id ∈ tasks.map (·.id) :=
  List.mem_toFinset

theorem id_mem_chainNames (ht : t ∈ tasks) : t.id ∈ chainNames tasks := by
  simp only [chainNames, Finset.mem_union, List.mem_toFinset, List.mem_map]
  exact .inl (.inr ⟨t, ht, rfl⟩)

theorem error_mem_chainNames (ht : t ∈ tasks) : t.id ++ "_error" ∈ chainNames tasks := by
  simp only [chainNames, Finset.mem_union, List.mem_toFinset, List.mem_map]
  exact .inr ⟨t, ht, rfl⟩

theorem own_mem_chainNames {name : String}
    (h : name ∈ ["input", "previous_output", "last_error"]) : name ∈ chainNames tasks := by
  simp only [chainNames, Finset.mem_union]
  refine .inl (.inl ?_)
  simpa using h

/-- The targets of an accepted chain's branches are its tasks. -/
theorem mem_ids_of_successTargets (hval : validateChain ck tasks = none) (ht : t ∈ tasks)
    {g : String} (hg : g ∈ successTargets t) : g ∈ tasks.map (·.id) := by
  obtain ⟨-, hne, hend, b, hb, rfl⟩ := mem_targetsFrom.mp hg
  have hbranch := (checkTask_eq_none (checkTask_of_validateChain hval ht)).2 b hb
  rcases checkBranch_goto hbranch with he | he | hmem
  · exact absurd he hne
  · exact absurd he hend
  · exact hmem

/-- An accepted chain names its own tasks only. -/
theorem scoped_of_validateChain (hval : validateChain ck tasks = none) :
    Scoped (chainNames tasks) (chainIDs tasks) tasks := by
  intro t ht l d hd
  have hid := id_mem_chainNames ht
  have herr := error_mem_chainNames ht
  have hprev : "previous_output" ∈ chainNames tasks := own_mem_chainNames (by simp)
  have hlast : "last_error" ∈ chainNames tasks := own_mem_chainNames (by simp)
  have hfeed : ∀ {dst : String} {types : DtSet} {extra : Finset String},
      dst ∈ tasks.map (·.id) → extra ⊆ chainNames tasks →
        ∀ d ∈ feed t.id dst types extra, d.Inside (chainNames tasks) (chainIDs tasks) := by
    intro dst types extra hdst hextra d hd
    have hdst' := mem_chainIDs.mpr hdst
    simp only [feed, List.mem_cons, List.not_mem_nil, or_false] at hd
    rcases hd with rfl | rfl | rfl
    · exact hdst'
    · exact ⟨hdst', hextra⟩
    · exact hdst'
  have hfail := (checkTask_eq_none (checkTask_of_validateChain hval ht)).1
  simp only [demands, List.mem_append] at hd
  rcases hd with ((hd | hd) | hd) | hd
  · simp only [List.mem_cons, List.not_mem_nil, or_false] at hd
    rcases hd with rfl | rfl
    · exact hid
    · exact hprev
  · split at hd
    · simp only [List.mem_cons, List.not_mem_nil, or_false] at hd
      rcases hd with rfl | rfl | rfl | rfl
      · exact hid
      · exact hprev
      · exact hlast
      · exact herr
    · cases hd
  · split at hd
    · obtain ⟨g, hg, hd⟩ := List.mem_flatMap.mp hd
      refine hfeed (mem_ids_of_successTargets hval ht hg) ?_ d hd
      exact Finset.insert_subset hid (Finset.singleton_subset_iff.mpr hprev)
    · cases hd
  · split at hd
    · rename_i hne
      refine hfeed (hfail hne) ?_ d hd
      simp only [Finset.insert_subset_iff, Finset.singleton_subset_iff]
      exact ⟨hid, hprev, hlast, herr⟩
    · cases hd

/-- The sets hold what the linter starts with. -/
structure Seeded (first : TaskDefinition) (entry : DtSet) (l : Lint) : Prop where
  input : entry ⊆ l.inSets first.id
  var : entry ⊆ l.varSets "input"
  avail : "input" ∈ l.avail first.id
  reach : first.id ∈ l.reachable

theorem newChainLinter_seeded (first : TaskDefinition) (entry : DtSet) :
    Seeded first entry (newChainLinter first entry) := by
  constructor <;> simp [newChainLinter]

theorem subset_update {β : Type} [DecidableEq β] (f : String → Finset β) (k n : String)
    (s : Finset β) : f n ⊆ Function.update f k (f k ∪ s) n := by
  by_cases hn : n = k
  · subst hn
    rw [Function.update_self]
    exact Finset.subset_union_left
  · rw [Function.update_of_ne hn]

variable {entry : DtSet}

theorem Seeded.perform (h : Seeded first entry l) (d : Demand) :
    Seeded first entry (d.perform l) := by
  cases d with
  | var name types => exact ⟨h.input, h.var.trans (subset_update _ _ _ _), h.avail, h.reach⟩
  | input id types => exact ⟨h.input.trans (subset_update _ _ _ _), h.var, h.avail, h.reach⟩
  | avail id src extra => exact ⟨h.input, h.var, subset_update _ _ _ _ h.avail, h.reach⟩
  | reach id => exact ⟨h.input, h.var, h.avail, Finset.mem_insert_of_mem h.reach⟩

theorem Seeded.pass (h : Seeded first entry l) : Seeded first entry (pass tasks l).1 := by
  have hstart : Seeded first entry (l, false).1 := h
  refine List.foldlRecOn (motive := fun w => Seeded first entry w.1) tasks visit hstart
    fun w h t _ => ?_
  unfold visit
  split
  · refine List.foldlRecOn (motive := fun w => Seeded first entry w.1) _ Demand.meet h
      fun w h d _ => ?_
    unfold Demand.meet
    split
    · exact h
    · exact h.perform d
  · exact h

/-- **Propagation terminates**, and what it ends with holds the entry and is closed. -/
theorem lint_terminates (hval : validateChain ck tasks = none) (entryTypes : List DataType) :
    ∃ first rest l, tasks = first :: rest ∧ lint tasks entryTypes = some l ∧
      Seeded first (entrySet entryTypes) l ∧ Closed tasks l := by
  cases tasks with
  | nil => simp [validateChain] at hval
  | cons first rest =>
    have hscoped := scoped_of_validateChain hval
    set tasks := first :: rest with htasks
    -- the invariant of the passes
    let P : Lint → Prop := fun l =>
      Within (chainNames tasks) (chainIDs tasks) l ∧ Seeded first (entrySet entryTypes) l
    have hP : ∀ l, P l → P (pass tasks l).1 :=
      fun l h => ⟨(pass_growth hscoped h.1).within, h.2.pass⟩
    have hstart : P (newChainLinter first (entrySet entryTypes)) := by
      refine ⟨⟨fun i => ?_, ?_⟩, newChainLinter_seeded _ _⟩
      · by_cases hi : i = first.id
        · subst hi
          simp only [newChainLinter, Function.update_self, Finset.singleton_subset_iff]
          exact own_mem_chainNames (by simp)
        · simp [newChainLinter, Function.update_of_ne hi]
      · simp [newChainLinter, mem_chainIDs, htasks]
    have hbound : ∀ l, P l → facts (chainNames tasks) (chainIDs tasks) l ≤ factBound tasks := by
      intro l h
      have hcard : (chainIDs tasks).card ≤ tasks.length := by
        simpa [chainIDs] using List.toFinset_card_le (tasks.map (·.id))
      refine (facts_le h.1).trans ?_
      unfold factBound
      gcongr
    have hgrow : ∀ l, P l → (pass tasks l).2 = true → facts (chainNames tasks) (chainIDs tasks) l <
          facts (chainNames tasks) (chainIDs tasks) (pass tasks l).1 := by
      intro l h hflag
      rcases (pass_growth hscoped h.1).lt hflag with hfalse | hlt
      · cases hfalse
      · exact hlt
    have hfuel : factBound tasks - facts (chainNames tasks) (chainIDs tasks)
        (newChainLinter first (entrySet entryTypes)) < factBound tasks + 1 := by omega
    obtain ⟨l, hl⟩ := Fixpoint.iterate_isSome hP hbound hgrow hstart hfuel
    obtain ⟨b, hb, hflag, rfl⟩ := Fixpoint.iterate_spec hP hstart hl
    obtain ⟨heq, hclosed⟩ := pass_eq hflag
    rw [heq] at hl
    exact ⟨first, rest, b, htasks, hl, hb.2, hclosed⟩

end

/-! ## 6. What is reported -/

def lintOrderedDataTypes : List DataType := [.string, .int, .json, .chatHistory, .nil, .any]

def describe (s : DtSet) : String :=
  if s = ∅ then "nothing"
  else join ", " ((lintOrderedDataTypes.filter (· ∈ s)).map DataType.text)

def acceptSet (sig : HandlerSignature) : DtSet :=
  if sig.inputs = [] then lintOrderedDataTypes.toFinset else sig.inputs.toFinset

def HandlerSignature.acceptsDescription (sig : HandlerSignature) : String :=
  if sig.inputs = [] then "any input type"
  else join ", " (sig.inputs.map DataType.text)

def OperatorTerm.text : OperatorTerm → String
  | .equals => "equals"
  | .contains => "contains"
  | .startsWith => "starts_with"
  | .endsWith => "ends_with"
  | .default => "default"
  | .edgeTraversedAtLeast => "edge_traversed_at_least"
  | .unsupported name => name

/-- The defects the linter finds by the sets and the signatures, and the structural one it passes
on. -/
inductive LintError
  | invalid (err : String)
  | routeVocabulary (t : TaskDefinition)
  | deadBranch (t : TaskDefinition) (b : TransitionBranch) (evals : List String)
  | inputVar (t : TaskDefinition) (known : Finset String)
  | promptTemplate (t : TaskDefinition)
  | inputVarTypes (t : TaskDefinition) (produced : DtSet)
  | entryInput (t : TaskDefinition) (entry : DtSet)
  | edge (p t : TaskDefinition) (carried : DtSet)

/-- What the error says; `sorted` lists the names of a set in order. -/
def LintError.text (quote : String → String) (sorted : Finset String → List String) :
    LintError → String
  | .invalid err => err
  | .routeVocabulary t => "task[" ++ t.id ++ "]: a route task needs at least one equals branch — " ++
      "the branch labels are the answer vocabulary the model routes between"
  | .deadBranch t b evals => "task[" ++ t.id ++ "]: branch (" ++ b.operator.text ++ " " ++
      quote b.when ++ ") can never fire: handler " ++ t.handler.text ++
      " only evaluates transitions against " ++ join ", " evals ++
      " — branch on one of those control tokens, or use the route handler to branch on model text"
  | .inputVar t known => "task[" ++ t.id ++ "]: input_var " ++ quote t.inputVar ++
      " is never produced by any task that can run before it (variables available here: " ++
      join ", " (sorted known) ++ ")"
  | .promptTemplate t => "task[" ++ t.id ++ "] handler " ++ t.handler.text ++
      " cannot take a prompt_template: a rendered template is a string, and " ++ t.handler.text ++
      " accepts " ++ (handlerSignatures t.handler).acceptsDescription
  | .inputVarTypes t produced => "task[" ++ t.id ++ "] handler " ++ t.handler.text ++
      " cannot accept input from input_var " ++ quote t.inputVar ++ " (produces " ++
      describe produced ++ "; accepts " ++ (handlerSignatures t.handler).acceptsDescription ++ ")"
  | .entryInput t entry => "task[" ++ t.id ++ "] handler " ++ t.handler.text ++
      " cannot accept the chain input (chain input is " ++ describe entry ++ "; accepts " ++
      (handlerSignatures t.handler).acceptsDescription ++ ")"
  | .edge p t carried => "task[" ++ t.id ++ "] handler " ++ t.handler.text ++
      " cannot accept input from task[" ++ p.id ++ "] (produces " ++ describe carried ++
      "; accepts " ++ (handlerSignatures t.handler).acceptsDescription ++ ")"

section Check

variable (tasks : List TaskDefinition) (entry : DtSet) (l : Lint)

def checkRouteVocabulary (t : TaskDefinition) : List LintError :=
  if t.handler = .route ∧ declaredRoutes t.transition.branches = [] then [.routeVocabulary t]
  else []

/-- Whether no transition value of the list picks the branch; the two operators that do not
look at the value are left alone. -/
def isDead (evals : List String) (b : TransitionBranch) : Bool :=
  b.operator ∈ [.equals, .contains, .startsWith, .endsWith] &&
    evals.all fun tok => !compare b.operator tok b.when

def checkDeadBranches (t : TaskDefinition) : List LintError :=
  match (handlerSignatures t.handler).successEvals with
  | none => []
  | some evals => (t.transition.branches.filter (isDead evals)).map (.deadBranch t · evals)

def checkInputVar (t : TaskDefinition) : List LintError :=
  if t.inputVar = "" ∨ t.inputVar = "input" ∨ t.inputVar ∈ l.avail t.id then []
  else [.inputVar t (l.avail t.id)]

/-- What a task hands to another over its edges to it. -/
def carriedTypes (p t : TaskDefinition) : DtSet :=
  (if t.id ∈ successTargets p then successOut l p else ∅) ∪
    (if p.transition.onFailure = t.id then failureOut l p else ∅)

/-- `checkEdge` of the linter. -/
def checkTypedEdge (p t : TaskDefinition) : List LintError :=
  let carried := carriedTypes l p t
  if carried = ∅ ∨ .any ∈ carried ∨ carried ∩ acceptSet (handlerSignatures t.handler) ≠ ∅ then []
  else [.edge p t carried]

def checkInputTypes (t : TaskDefinition) : List LintError :=
  let sig := handlerSignatures t.handler
  let accepts := acceptSet sig
  if trimSpace t.promptTemplate ≠ "" then
    if sig.inputs ≠ [] ∧ .string ∉ accepts then [.promptTemplate t] else []
  else if t.inputVar ≠ "" then
    let s := l.varSets t.inputVar
    if s = ∅ ∨ .any ∈ s ∨ sig.inputs = [] ∨ s ∩ accepts ≠ ∅ then [] else [.inputVarTypes t s]
  else if sig.inputs = [] then []
  else
    (if (tasks.head?.map (·.id)) = some t.id ∧ .any ∉ entry ∧ entry ∩ accepts = ∅ then
      [.entryInput t entry] else []) ++
    (tasks.filter (·.id ∈ l.reachable)).flatMap fun p => checkTypedEdge l p t

/-- `check`, but for the two checks of macro and template texts. -/
def check : List LintError :=
  tasks.flatMap fun t =>
    checkRouteVocabulary t ++ checkDeadBranches t ++
      if t.id ∈ l.reachable then checkInputVar l t ++ checkInputTypes tasks entry l t else []

end Check

/-- `LintChain`: the defects, or none if the propagation did not come to an end. -/
def lintChain (ck : Checks) (tasks : List TaskDefinition) (entryTypes : List DataType) :
    Option (List LintError) :=
  match validateChain ck tasks with
  | some e => some [.invalid e]
  | none => (lint tasks entryTypes).map (check tasks (entrySet entryTypes))

end Contenox.Engine
