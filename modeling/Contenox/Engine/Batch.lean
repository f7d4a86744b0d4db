/-
# A batch over any number of suspensions

How far a batch has come is stored nowhere.  A suspended task leaves its history behind, and
the resumed one reads off its trailing results which calls are still open.  What makes that
sound is one invariant, `Progress`: the results behind the assistant message answer exactly a
LEADING part of the batch, in its order.  A turn moves the cut by one call or suspends at it,
the stubs move it to the end, and a resumed task finds it where it was left.

Hence (`batch_worked_off_once`): over all suspensions the provider executes calls of the batch
in order and none twice, and a task that comes to its end has answered each call once.
-/
import Contenox.Engine.ToolCalls

namespace Contenox.Engine

open Lib

variable {σ α ρ : Type} {pre : List Message} {m : Message} {dn todo : List ToolCall} {b : Batch σ}
  {out : Outside σ α ρ} {task : ToolTask}

/-! ## 1. Progress through a batch -/

section

variable {b' : Batch σ} {tc : ToolCall}

/-- Behind `pre` and the assistant message `m` stand the results of the calls `dn`, in order. -/
def HoldsResults (pre : List Message) (m : Message) (dn : List ToolCall) (msgs : List Message) :
    Prop :=
  ∃ results, msgs = pre ++ m :: results ∧ (∀ r ∈ results, r.role = .tool) ∧
    results.map (·.toolCallID) = dn.map (·.id)

/-- The calls `dn` of the batch of `m`, and no others, are answered. -/
structure Progress (pre : List Message) (m : Message) (dn : List ToolCall) (b : Batch σ) :
    Prop where
  history : HoldsResults pre m dn b.history.messages
  answered : ∀ id, id ∈ b.answered ↔ id ∈ dn.map (·.id)

/-- The ids of the calls the provider executed: those it did not leave pending. -/
def executed (calls : List (ToolsCall × Bool)) : List String :=
  (calls.filter fun c => !c.2).map (·.1.callID)

@[simp] theorem executed_nil : executed [] = [] := rfl

@[simp] theorem executed_append (c d : List (ToolsCall × Bool)) :
    executed (c ++ d) = executed c ++ executed d := by
  simp [executed]

theorem HoldsResults.answer {h : ChatHistory} (hh : HoldsResults pre m dn h.messages)
    (tc : ToolCall) (content : String) :
    HoldsResults pre m (dn ++ [tc]) (h.answer tc.id content).messages := by
  obtain ⟨results, hmsgs, hrole, hids⟩ := hh
  refine ⟨results ++ [toolMessage tc.id content], ?_, ?_, ?_⟩
  · simp [ChatHistory.answer, hmsgs]
  · exact List.forall_mem_append.mpr ⟨hrole, List.forall_mem_singleton.mpr rfl⟩
  · simp [hids, toolMessage]

/-- A result moves its call to the answered ones. -/
theorem Progress.answer {content : String} (hp : Progress pre m dn b)
    (hh : b'.history = b.history.answer tc.id content) (ha : b'.answered = tc.id :: b.answered) :
    Progress pre m (dn ++ [tc]) b' := by
  refine ⟨?_, ?_⟩
  · rw [hh]
    exact hp.history.answer tc content
  intro id
  rw [ha, List.mem_cons, hp.answered id]
  simp only [List.map_append, List.map_cons, List.map_nil, List.mem_append, List.mem_singleton]
  exact or_comm

/-- The next call of a batch with distinct ids is open. -/
theorem Progress.isOpen (hp : Progress pre m dn b)
    (hnd : ((dn ++ tc :: todo).map (·.id)).Nodup) : tc.id ∉ b.answered := by
  rw [hp.answered]
  intro hmem
  rw [List.map_append, List.nodup_append] at hnd
  exact hnd.2.2 _ hmem _ (by simp) rfl

end

/-! ## 2. The loop and the stubs move the cut -/

section

variable {scope : Option (List String)}

/-- Calls that are answered are passed over. -/
theorem turns_answered (hdn : ∀ tc ∈ dn, tc.id ≠ "" ∧ tc.id ∈ b.answered) :
    turns out task scope (dn ++ todo) b = turns out task scope todo b := by
  induction dn with
  | nil => rfl
  | cons tc dn ih =>
    rw [List.cons_append, turns, turn, if_pos (hdn tc (by simp))]
    exact ih fun tc' h => hdn tc' (by simp [h])

/-- Where the loop over the open calls leaves off, and what it has handed to the provider. -/
inductive LoopSpec (pre : List Message) (m : Message) (dn todo : List ToolCall) (b : Batch σ) :
    Turn σ → Prop
  | worked {b' : Batch σ} {r : Turn σ} {rest : List ToolCall} (fin : List ToolCall)
      (log : List (ToolsCall × Bool)) (cut : todo = fin ++ rest) (progress : Progress pre m (dn ++ fin) b')
      (calls : b'.calls = b.calls ++ log) (order : (executed log).Sublist (fin.map (·.id)))
      (ends : (r = .next b' ∧ rest = []) ∨ r = .stop b' ∨
        (∃ id, r = .suspend b' id ∧ rest ≠ []) ∨ ∃ e, r = .abort b' e) :
      LoopSpec pre m dn todo b r

theorem executed_answers {tc : ToolCall} {b' : Batch σ} (h : Answers out task scope b tc b') :
    ∃ log, b'.calls = b.calls ++ log ∧ (executed log).Sublist [tc.id] := by
  rcases h.calls with heq | ⟨call, adm, heq⟩
  · exact ⟨[], by simp [heq], by simp⟩
  · exact ⟨[(call, false)], heq, by simp [executed, adm.callID]⟩

/-- By induction on the open calls; the turn's inversion gives the four ways to leave off. -/
theorem turns_spec (out : Outside σ α ρ) (task : ToolTask)
    (scope : Option (List String)) (hp : Progress pre m dn b) (hnd : ((dn ++ todo).map (·.id)).Nodup) :
    LoopSpec pre m dn todo b (turns out task scope todo b) := by
  induction todo generalizing dn b with
  | nil => exact .worked [] [] rfl (by simpa using hp) (by simp) (by simp) (.inl ⟨rfl, rfl⟩)
  | cons tc todo ih =>
    have hopen := hp.isOpen hnd
    rw [turns]
    have hspec := turn_spec out task scope b tc
    generalize turn out task scope b tc = r at hspec
    cases hspec with
    | skip old => exact absurd old.2 hopen
    | @next b' new ans =>
      obtain ⟨content, hh⟩ := ans.history
      obtain ⟨log, hcalls, hlog⟩ := executed_answers ans
      have hp' := hp.answer hh ans.answered
      have hrest := ih hp' (by simpa using hnd)
      dsimp only
      generalize turns out task scope todo b' = r at hrest
      obtain ⟨fin, log', hcut, hprog, hcalls', horder, hends⟩ := hrest
      refine .worked (tc :: fin) (log ++ log') (by rw [hcut]; rfl) (by simpa using hprog)
        (by rw [hcalls', hcalls, List.append_assoc]) ?_ hends
      rw [executed_append]
      exact hlog.append horder
    | @stop b' new ans =>
      obtain ⟨content, hh⟩ := ans.history
      obtain ⟨log, hcalls, hlog⟩ := executed_answers ans
      exact .worked [tc] log rfl (hp.answer hh ans.answered) hcalls hlog (.inr (.inl rfl))
    | suspend new adm =>
      exact .worked [] _ rfl (by simpa using ⟨hp.history, hp.answered⟩) rfl
        (by simp [executed]) (.inr (.inr (.inl ⟨_, rfl, by simp⟩)))
    | abort new =>
      exact .worked [] [] rfl (by simpa using hp) (by simp) (by simp) (.inr (.inr (.inr ⟨_, rfl⟩)))

/-- The stubs answer what is left, and hand nothing to the provider. -/
theorem stubs_spec (out : Outside σ α ρ) (hp : Progress pre m dn b) (hnd : ((dn ++ todo).map (·.id)).Nodup)
    (hne : ∀ tc ∈ todo, tc.id ≠ "") :
    Progress pre m (dn ++ todo) (stubs out todo b) ∧ (stubs out todo b).calls = b.calls := by
  induction todo generalizing dn b with
  | nil =>
    rw [List.append_nil]
    exact ⟨hp, rfl⟩
  | cons tc todo ih =>
    have hnew : ¬ (tc.id = "" ∨ tc.id ∈ b.answered) := by
      rintro (h | h)
      · exact hne tc (by simp) h
      · exact hp.isOpen hnd h
    rw [stubs, if_neg hnew]
    have hp' : Progress pre m (dn ++ [tc])
        (b.answer tc.id (out.errorContent interruptedToolCallResult)) := hp.answer rfl rfl
    have hrest := ih hp' (by simpa using hnd) fun tc' h => hne tc' (by simp [h])
    exact ⟨by simpa using hrest.1, hrest.2⟩

theorem stubs_answered (hdn : ∀ tc ∈ dn, tc.id ∈ b.answered) :
    stubs out (dn ++ todo) b = stubs out todo b := by
  induction dn with
  | nil => rfl
  | cons tc dn ih =>
    rw [List.cons_append, stubs, if_pos (.inr (hdn tc (by simp)))]
    exact ih fun tc' h => hdn tc' (by simp [h])

end

/-! ## 3. A resumed task finds the cut -/

section

variable {msgs : List Message}

theorem rdropWhile_results (pre : List Message) {results : List Message} (hm : m.role ≠ .tool)
    (hr : ∀ r ∈ results, r.role = .tool) :
    (pre ++ m :: results).rdropWhile (fun m => m.role = .tool) = pre ++ [m] ∧
      (pre ++ m :: results).rtakeWhile (fun m => m.role = .tool) = results := by
  have hsplit : pre ++ m :: results = (pre ++ [m]) ++ results := by simp
  have hall : ∀ r ∈ results.reverse, decide (r.role = .tool) = true := by
    intro r h
    simpa using hr r (List.mem_reverse.mp h)
  rw [hsplit]
  unfold List.rdropWhile List.rtakeWhile
  rw [List.reverse_append, List.dropWhile_append_of_pos hall, List.takeWhile_append_of_pos hall]
  simp [hm]

/-- With a call that no result names, the batch is found, with the ids the results do name. -/
theorem resumable_of_open {results : List Message} {tc : ToolCall} (pre : List Message)
    (hrole : m.role = .assistant) (hr : ∀ r ∈ results, r.role = .tool) (htc : tc ∈ m.callTools)
    (hopen : tc.id = "" ∨ tc.id ∉ results.map (·.toolCallID)) :
    resumableToolCallBatch (pre ++ m :: results) =
      some (pre.length, (results.map (·.toolCallID)).filter (· ≠ "")) := by
  obtain ⟨hdrop, htake⟩ := rdropWhile_results pre (m := m) (by simp [hrole]) hr
  unfold resumableToolCallBatch
  simp only [hdrop, htake, List.getLast?_concat]
  rw [if_neg (by simp [hrole, List.ne_nil_of_mem htc]), if_pos]
  · simp
  rw [List.any_eq_true]
  refine ⟨tc, htc, ?_⟩
  rcases hopen with h | h
  · simp [h]
  · have hans : tc.id ∉ (results.map (·.toolCallID)).filter (· ≠ "") := fun hmem =>
      h (List.mem_filter.mp hmem).1
    simp only [List.contains_eq_mem, hans, decide_false, Bool.not_false, Bool.or_true]

/-- With an open call left, the batch is found, with the ids of the answered ones. -/
theorem resumable_of_holdsResults (hrole : m.role = .assistant) (hcalls : m.callTools = dn ++ todo)
    (hne : ∀ tc ∈ m.callTools, tc.id ≠ "") (hnd : (m.callTools.map (·.id)).Nodup)
    (htodo : todo ≠ []) (h : HoldsResults pre m dn msgs) :
    resumableToolCallBatch msgs = some (pre.length, dn.map (·.id)) ∧ msgs[pre.length]? = some m := by
  obtain ⟨results, rfl, hr, hids⟩ := h
  obtain ⟨tc, rest, rfl⟩ := List.exists_cons_of_ne_nil htodo
  have hans : (dn.map (·.id)).filter (· ≠ "") = dn.map (·.id) := by
    rw [List.filter_eq_self]
    intro id hid
    obtain ⟨c, hc, rfl⟩ := List.mem_map.mp hid
    simpa using hne c (by simp [hcalls, hc])
  have hopen : tc.id ∉ results.map (·.toolCallID) := by
    rw [hids]
    intro hmem
    rw [hcalls, List.map_append, List.nodup_append] at hnd
    exact hnd.2.2 _ hmem _ (by simp) rfl
  refine ⟨?_, by simp⟩
  rw [resumable_of_open pre hrole hr (by simp [hcalls]) (.inr hopen), hids, hans]

end

/-! ## 4. The task, and any number of suspensions -/

section

variable {h : ChatHistory}

/-- An assistant message whose batch has distinct ids, none of them empty. -/
structure IsBatch (m : Message) : Prop where
  role : m.role = .assistant
  named : ∀ tc ∈ m.callTools, tc.id ≠ ""
  distinct : (m.callTools.map (·.id)).Nodup

/-- The transcript ends in the batch of `m`, with the calls `dn` answered and `todo` open. -/
structure OpenBatch (pre : List Message) (m : Message) (dn todo : List ToolCall)
    (h : ChatHistory) : Prop where
  batch : IsBatch m
  calls : m.callTools = dn ++ todo
  left : todo ≠ []
  results : HoldsResults pre m dn h.messages

/-- Where a task that found `dn` answered leaves the batch. -/
inductive TaskSpec (pre : List Message) (m : Message) (todo : List ToolCall) (o : Outcome σ) :
    Prop
  | returned {b : Batch σ} {transition : String} (eq : o = .returned b transition)
      (history : HoldsResults pre m m.callTools b.history.messages)
      (order : (executed b.calls).Sublist (todo.map (·.id)))
  | suspended {b : Batch σ} {id : String} {fin rest : List ToolCall} (dn : List ToolCall)
      (eq : o = .suspended b id) (cut : todo = fin ++ rest)
      (left : OpenBatch pre m (dn ++ fin) rest b.history)
      (order : (executed b.calls).Sublist (fin.map (·.id)))
  | aborted {b : Batch σ} {e : String} (eq : o = .aborted b e)
      (order : (executed b.calls).Sublist (todo.map (·.id)))

theorem TaskSpec.sublist {o : Outcome σ} (hs : TaskSpec pre m todo o) :
    (executed o.batch.calls).Sublist (todo.map (·.id)) := by
  obtain ⟨rfl, -, horder⟩ | ⟨-, rfl, rfl, -, horder⟩ | ⟨rfl, horder⟩ := hs
  · exact horder
  · rw [List.map_append]
    exact horder.trans (List.sublist_append_left _ _)
  · exact horder

theorem finish_spec {fin rest : List ToolCall} (hm : IsBatch m)
    (hcalls : m.callTools = dn ++ (fin ++ rest)) (hp : Progress pre m (dn ++ fin) b)
    (horder : (executed b.calls).Sublist (fin.map (·.id))) :
    TaskSpec pre m (fin ++ rest) (finish out m.callTools b) := by
  have hcalls' : m.callTools = (dn ++ fin) ++ rest := by rw [hcalls, List.append_assoc]
  have hans : ∀ tc ∈ dn ++ fin, tc.id ∈ b.answered := by
    intro tc h
    rw [hp.answered]
    exact List.mem_map_of_mem h
  have hst := stubs_spec out hp (hcalls' ▸ hm.distinct) fun tc h =>
    hm.named tc (by simp [hcalls', h])
  refine .returned rfl ?_ ?_
  · rw [hcalls', stubs_answered hans]
    exact hst.1.history
  · rw [hcalls', stubs_answered hans, hst.2]
    simpa using horder.trans (List.sublist_append_left _ _)

/-- A batch that is found is worked off in the task's scope. -/
theorem executeToolCalls_found (out : Outside σ α ρ) (task : ToolTask) (w : σ) {i : Nat}
    {answered : List String} (hres : resumableToolCallBatch h.messages = some (i, answered))
    (hget : h.messages[i]? = some m) :
    (∃ e, executionToolsScope task.runtime out.supports task.config = .error e ∧
      executeToolCalls out task w h = .aborted ⟨w, h, [], none, false, []⟩
        ("failed to resolve execution tools scope: " ++ e)) ∨
    ∃ scope, executionToolsScope task.runtime out.supports task.config = .ok scope ∧
      executeToolCalls out task w h =
        (turns out task scope m.callTools ⟨w, h, answered, none, false, []⟩).close out
          m.callTools := by
  have hmsgs : h.messages ≠ [] := by
    rintro he
    simp [he] at hget
  unfold executeToolCalls
  simp only [if_neg hmsgs, hres, hget, Option.map_some, Option.getD_some]
  cases executionToolsScope task.runtime out.supports task.config with
  | error e => exact .inl ⟨e, rfl, rfl⟩
  | ok scope =>
    refine .inr ⟨scope, rfl, ?_⟩
    dsimp only
    cases turns out task scope m.callTools _ with
    | next | stop | suspend | abort => rfl

/-- On a transcript with open calls the loop runs over those, unless the task has no scope. -/
theorem executeToolCalls_open (out : Outside σ α ρ) (task : ToolTask)
    (w : σ) (hb : OpenBatch pre m dn todo h) :
    (∃ e, executionToolsScope task.runtime out.supports task.config = .error e ∧
      executeToolCalls out task w h = .aborted ⟨w, h, [], none, false, []⟩
        ("failed to resolve execution tools scope: " ++ e)) ∨
    ∃ scope, executionToolsScope task.runtime out.supports task.config = .ok scope ∧
      executeToolCalls out task w h =
        (turns out task scope todo ⟨w, h, dn.map (·.id), none, false, []⟩).close out
          m.callTools := by
  obtain ⟨hres, hget⟩ := resumable_of_holdsResults hb.batch.role hb.calls hb.batch.named
    hb.batch.distinct hb.left hb.results
  have hskip : ∀ tc ∈ dn, tc.id ≠ "" ∧ tc.id ∈ dn.map (·.id) := fun tc htc =>
    ⟨hb.batch.named tc (by simp [hb.calls, htc]), List.mem_map_of_mem htc⟩
  obtain herr | ⟨scope, hscope, ho⟩ :=
    executeToolCalls_found out task w hres hget
  · exact .inl herr
  · refine .inr ⟨scope, hscope, ?_⟩
    rw [ho, hb.calls, turns_answered hskip]

/-- **A task works off what is open, in order.** -/
theorem executeToolCalls_spec (out : Outside σ α ρ) (task : ToolTask) (w : σ)
    (hb : OpenBatch pre m dn todo h) : TaskSpec pre m todo (executeToolCalls out task w h) := by
  have hp : Progress pre m dn (⟨w, h, dn.map (·.id), none, false, []⟩ : Batch σ) :=
    ⟨hb.results, fun _ => Iff.rfl⟩
  obtain ⟨e, -, ho⟩ | ⟨scope, -, ho⟩ := executeToolCalls_open out task w hb
  · exact .aborted ho (by simp)
  have hloop := turns_spec out task scope hp (hb.calls ▸ hb.batch.distinct)
  rw [ho]
  generalize turns out task scope todo _ = r at hloop
  obtain ⟨fin, log, hcut, hprog, hlog, horder, hends⟩ := hloop
  rw [List.nil_append] at hlog
  rw [← hlog] at horder
  subst hcut
  rcases hends with ⟨rfl, -⟩ | rfl | ⟨id, rfl, hleft⟩ | ⟨e, rfl⟩
  · exact finish_spec hb.batch hb.calls hprog horder
  · exact finish_spec hb.batch hb.calls hprog horder
  · exact .suspended dn rfl rfl
      ⟨hb.batch, by rw [hb.calls, List.append_assoc], hleft, hprog.history⟩ horder
  · exact .aborted rfl (by simpa using horder.trans (List.sublist_append_left _ _))

/-- The task over any number of suspensions: each is followed by a resumption on the history it
left, with whatever provider, in whatever state, the resuming process has.  The list holds every
call handed to a provider. -/
inductive Cycles (task : ToolTask) :
    ChatHistory → List (ToolsCall × Bool) → Outcome σ → Prop
  | last (out : Outside σ α ρ) (w : σ) (h : ChatHistory) :
      Cycles task h
        (executeToolCalls out task w h).batch.calls
        (executeToolCalls out task w h)
  | resume (out : Outside σ α ρ) (w : σ) {h : ChatHistory} {b : Batch σ} {id : String}
      {log : List (ToolsCall × Bool)} {o : Outcome σ}
      (susp : executeToolCalls out task w h = .suspended b id)
      (rest : Cycles task b.history log o) :
      Cycles task h (b.calls ++ log) o

/-- The induction is on the suspensions, and what it carries is the cut in the batch. -/
theorem cycles_spec {log : List (ToolsCall × Bool)} {o : Outcome σ}
    (hc : Cycles (α := α) (ρ := ρ) task h log o) (hb : OpenBatch pre m dn todo h) :
    (executed log).Sublist (todo.map (·.id)) ∧
      ∀ b transition, o = .returned b transition →
        HoldsResults pre m m.callTools b.history.messages := by
  induction hc generalizing dn todo with
  | last out w h =>
    have hspec := executeToolCalls_spec out task w hb
    refine ⟨hspec.sublist, fun b transition ho => ?_⟩
    cases hspec with
    | returned eq history order =>
      cases ho.symm.trans eq
      exact history
    | suspended _ eq | aborted eq => cases ho.symm.trans eq
  | resume out w susp rest ih =>
    have hspec := executeToolCalls_spec out task w hb
    rw [susp] at hspec
    cases hspec with
    | returned eq _ _ | aborted eq _ => cases eq
    | suspended _ eq cut left order =>
      cases eq
      subst cut
      obtain ⟨hlog, hend⟩ := ih left
      refine ⟨?_, hend⟩
      rw [executed_append, List.map_append]
      exact order.append hlog

/-- A message without calls is no batch to work off. -/
theorem executeToolCalls_no_calls (out : Outside σ α ρ) (task : ToolTask) (w : σ)
    (hrole : m.role = .assistant) (hcalls : m.callTools = []) (hh : h.messages = pre ++ [m]) :
    executeToolCalls out task w h =
      .returned ⟨w, h, [], none, false, []⟩ "no_calls_found" := by
  have hres : resumableToolCallBatch (pre ++ [m]) = none := by
    have hnone : ∀ r ∈ ([] : List Message), r.role = .tool := by simp
    obtain ⟨hdrop, htake⟩ := rdropWhile_results pre (m := m) (by simp [hrole]) hnone
    unfold resumableToolCallBatch
    simp only [hdrop, htake, List.getLast?_concat]
    rw [if_pos (.inr hcalls)]
  unfold executeToolCalls
  simp [hh, hres]

/-- **A batch is worked off once.**  Over any number of suspensions, the calls executed are calls
of the batch, in its order and none of them twice; and a task that comes to its end has put
behind the assistant message one result for each call, in the order of the batch. -/
theorem batch_worked_off_once (pre : List Message) (hm : IsBatch m) {h : ChatHistory}
    (hh : h.messages = pre ++ [m])
    {log : List (ToolsCall × Bool)} {o : Outcome σ}
    (hc : Cycles (α := α) (ρ := ρ) task h log o) :
    (executed log).Sublist (m.callTools.map (·.id)) ∧ (executed log).Nodup ∧
      ∀ b transition, o = .returned b transition →
        ∃ results, b.history.messages = pre ++ m :: results ∧ (∀ r ∈ results, r.role = .tool) ∧
          results.map (·.toolCallID) = m.callTools.map (·.id) ∧
          ∀ tc ∈ m.callTools, (results.map (·.toolCallID)).count tc.id = 1 := by
  have hstart : HoldsResults pre m [] h.messages := ⟨[], by simp [hh], by simp, rfl⟩
  have hmain : (executed log).Sublist (m.callTools.map (·.id)) ∧
      ∀ b transition, o = .returned b transition →
        HoldsResults pre m m.callTools b.history.messages := by
    by_cases hcalls : m.callTools = []
    · cases hc with
      | last out w =>
        rw [executeToolCalls_no_calls out task w hm.role hcalls hh]
        refine ⟨by simp [Outcome.batch], ?_⟩
        rintro b transition ⟨⟩
        rw [hcalls]
        exact hstart
      | resume out w susp rest =>
        rw [executeToolCalls_no_calls out task w hm.role hcalls hh] at susp
        cases susp
    · exact cycles_spec hc ⟨hm, rfl, hcalls, hstart⟩
  refine ⟨hmain.1, hmain.1.nodup hm.distinct, ?_⟩
  intro b transition ho
  obtain ⟨results, hmsgs, hrole, hids⟩ := hmain.2 b transition ho
  refine ⟨results, hmsgs, hrole, hids, ?_⟩
  intro tc htc
  rw [hids]
  exact List.count_eq_one_of_mem hm.distinct (List.mem_map_of_mem htc)

end

/-- Surroundings that take every text as it is. -/
def plainOutside (withText : ρ → String → ρ) (serialize : ρ → Except String String)
    (exec : σ → ToolsCall → Unit → σ × ExecResult ρ) (tools : List ToolWithResolution) :
    Outside σ Unit ρ where
  exec := exec
  supports := .ok ["fs"]
  countTokens _ := .ok 0
  parseArguments _ := .ok ()
  withText := withText
  serialize := serialize
  capContent _ _ content := content
  errorContent := id
  quote := id
  suggestion _ := ""
  table _ := tools

/-- A provider that asks for approval of the call `b`, and is told of it in its state. -/
def askingOutside : Outside Bool Unit String :=
  plainOutside (fun _ text => text) .ok (fun approved call _ =>
      (approved, if call.callID = "b" ∧ approved = false then .pending "ask" else .done "ok"))
    [⟨"fs.read", "fs"⟩, ⟨"fs.write", "fs"⟩]

def askedMessage : Message :=
  ⟨.assistant, "", "", [⟨"a", "fs.read", ""⟩, ⟨"b", "write", ""⟩, ⟨"c", "fs.gone", ""⟩]⟩

def askedHistory : ChatHistory := ⟨[askedMessage], 0, 0⟩

/-- The task suspends on its second call, is resumed, executes it and answers the third, which
names no tool. -/
theorem batch_worked_off_once_asked :
    let task : ToolTask := ⟨"run_tools", none, [], [], 1000, .detached⟩
    let first := executeToolCalls askingOutside task false askedHistory
    let second := executeToolCalls askingOutside task true first.batch.history
    executed (first.batch.calls ++ second.batch.calls) = ["a", "b"] ∧
      (executed (first.batch.calls ++ second.batch.calls)).Nodup ∧
      ∃ results, second.batch.history.messages = [] ++ askedMessage :: results ∧
        results.map (·.toolCallID) = ["a", "b", "c"] := by
  intro task first second
  have hm : IsBatch askedMessage := ⟨rfl, by decide +kernel, by decide +kernel⟩
  have hsusp : first = .suspended first.batch "ask" := by decide +kernel
  have hend : second = .returned second.batch "tools_executed" := by decide +kernel
  have hc : Cycles task askedHistory
      (first.batch.calls ++ second.batch.calls) second :=
    .resume askingOutside false hsusp (.last askingOutside true first.batch.history)
  obtain ⟨-, hnd, hres⟩ := batch_worked_off_once [] hm rfl hc
  obtain ⟨results, hmsgs, -, hids, -⟩ := hres _ _ hend
  exact ⟨by decide +kernel, hnd, results, hmsgs, hids⟩

end Contenox.Engine
