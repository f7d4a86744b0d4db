/-
# Attempts at a batch

A failed attempt is made again with the input the task was entered with.  The transcript the
attempt returned, with the results of the calls it executed, is dropped: a batch that failed
part-way starts over (`retried_batch_runs_a_call_again`).

What became of a call is read off a journal the provider keeps.  Nothing is executed again after
it has completed where the task has one attempt, and where `execute_tool_calls` has one open call:
an attempt then fails only with the call that is made again.
-/
import Contenox.Engine.Batch
import Contenox.Engine.Gate

namespace Contenox.Engine

variable {σ α ρ : Type} {hd : Handlers σ α ρ} {ran : σ → List (String × Bool)} {pre : List Message}
  {msg : Message} {dn todo : List ToolCall} {h : ChatHistory}

/-! ## 1. A journal of the calls -/

section

variable {b : Batch σ}

/-- What an answer says of its call: nothing while an approval is pending, else whether the call
ran to completion, with a result that can be handed on. -/
def account (out : Outside σ α ρ) (id : String) : ExecResult ρ → List (String × Bool)
  | .pending _ => []
  | .done result => [(id, (out.serialize result).isOk)]
  | .failed _ _ | .ended _ _ => [(id, false)]

/-- The provider keeps a journal of its calls, and nothing else writes to it. -/
structure Journal (hd : Handlers σ α ρ) (ran : σ → List (String × Bool)) : Prop where
  exec : ∀ tools w call args, ran ((hd.outside tools).exec w call args).1 =
    ran w ++ account (hd.outside tools) call.callID ((hd.outside tools).exec w call args).2
  complete : ∀ w call h, ran (hd.complete w call h).1 = ran w

/-- A turn adds `log` to the journal.  If it ends the attempt, it completed nothing. -/
structure Noted (ran : σ → List (String × Bool)) (b : Batch σ) (t : Turn σ)
    (log : List (String × Bool)) : Prop where
  world : ran t.batch.world = ran b.world ++ log
  calls : executed t.batch.calls = executed b.calls ++ log.map (·.1)
  fails : t = .stop t.batch ∨ (∃ e, t = .abort t.batch e) → ∀ e ∈ log, e.2 = false
  goesOn : t = .next t.batch → t.batch.taskErr = b.taskErr

theorem Noted.none {t : Turn σ} (hworld : t.batch.world = b.world)
    (hcalls : executed t.batch.calls = executed b.calls)
    (herr : t = .next t.batch → t.batch.taskErr = b.taskErr) : Noted ran b t [] :=
  ⟨by simp [hworld], by simp [hcalls], fun _ _ h => by simp at h, herr⟩

theorem account_ids {out : Outside σ α ρ} {id : String} {res : ExecResult ρ}
    (h : ∀ a, res ≠ .pending a) : (account out id res).map (·.1) = [id] := by
  cases res with
  | pending a => exact absurd rfl (h a)
  | done | failed | ended => rfl

variable (hj : Journal hd ran) (tools : List ToolWithResolution) (task : ToolTask)

include hj

theorem turn_noted (scope : Option (List String)) (b : Batch σ) (tc : ToolCall) :
    ∃ log, Noted ran b (turn (hd.outside tools) task scope b tc) log := by
  have hcases := turn_cases (hd.outside tools) task scope b tc
  generalize turn (hd.outside tools) task scope b tc = t at hcases
  cases hcases with
  | skipped | refused => exact ⟨[], .none rfl rfl fun _ => rfl⟩
  | unparsed | aborted => exact ⟨[], .none rfl rfl fun h => by cases h⟩
  | @waits call args w id adm made =>
    have hran := hj.exec tools b.world call args
    rw [made] at hran
    exact ⟨[], by simpa [Turn.batch, account] using hran, by simp [Turn.batch, executed],
      by simp, fun h => by cases h⟩
  | @ran call args w res adm made answer =>
    have hran := hj.exec tools b.world call args
    rw [made] at hran
    refine ⟨_, hran, ?_, fun h => by simp [Turn.batch] at h, fun _ => rfl⟩
    rw [account_ids (by rcases answer with ⟨r, rfl, -⟩ | ⟨r, e, rfl⟩ <;> simp)]
    simp [Turn.batch, Batch.ran, Batch.answer, executed]
  | @stopped call args w res adm made waits unread =>
    have hran := hj.exec tools b.world call args
    rw [made] at hran
    refine ⟨_, hran, ?_, fun _ => ?_, fun h => by cases h⟩
    · rw [account_ids waits]
      simp [Turn.batch, Batch.ran, Batch.answer, executed]
    · cases res with
      | pending a => exact absurd rfl (waits a)
      | done r => simp [account, unread r rfl]
      | failed | ended => simp [account]

theorem turns_noted (scope : Option (List String)) (calls : List ToolCall) (b : Batch σ) :
    ∃ log, ran (turns (hd.outside tools) task scope calls b).batch.world =
        ran b.world ++ log ∧
      executed (turns (hd.outside tools) task scope calls b).batch.calls =
        executed b.calls ++ log.map (·.1) := by
  induction calls generalizing b with
  | nil => exact ⟨[], by simp [turns, Turn.batch], by simp [turns, Turn.batch]⟩
  | cons tc rest ih =>
    obtain ⟨log, hnoted⟩ := turn_noted hj tools task scope b tc
    rw [turns]
    split
    · rename_i b' heq
      rw [heq] at hnoted
      obtain ⟨log', hworld, hcalls⟩ := ih b'
      refine ⟨log ++ log', ?_, ?_⟩
      · rw [hworld, show ran b'.world = _ from hnoted.world, List.append_assoc]
      · rw [hcalls, show executed b'.calls = _ from hnoted.calls, List.map_append,
          List.append_assoc]
    · exact ⟨log, hnoted.world, hnoted.calls⟩

end

/-! ## 2. One attempt -/

/-- An attempt executes a call once; if it fails with one call open, it completed none. -/
theorem executeToolCalls_noted (hj : Journal hd ran) (tools : List ToolWithResolution)
    (task : ToolTask) (w : σ) (hb : OpenBatch pre msg dn todo h) :
    let o := executeToolCalls (hd.outside tools) task w h
    ∃ log, ran o.batch.world = ran w ++ log ∧ (log.map (·.1)).Nodup ∧
      (todo.length = 1 → ∀ output e, batchResult o = .failed output e → ∀ n ∈ log, n.2 = false) := by
  intro o
  have hsub := (executeToolCalls_spec (hd.outside tools) task w hb).sublist
  have hnd : ((dn ++ todo).map (·.id)).Nodup := hb.calls ▸ hb.batch.distinct
  rw [List.map_append] at hnd
  obtain ⟨e, -, ho⟩ | ⟨scope, -, ho⟩ :=
    executeToolCalls_open (hd.outside tools) task w hb
  · exact ⟨[], by simp [o, ho, Outcome.batch], by simp, by simp⟩
  let start : Batch σ := ⟨w, h, dn.map (·.id), none, false, []⟩
  obtain ⟨log, hworld, hexec⟩ := turns_noted hj tools task scope todo start
  change o = (turns (hd.outside tools) task scope todo start).close _ _ at ho
  change (executed o.batch.calls).Sublist _ at hsub
  rw [ho, Turn.close_calls, hexec] at hsub
  refine ⟨log, by rw [ho, Turn.close_world, hworld], ?_, ?_⟩
  · exact hsub.nodup (List.nodup_append.mp hnd).2.1
  intro hone output e hres
  obtain ⟨tc, rfl⟩ := List.length_eq_one_iff.mp hone
  have hsingle : turns (hd.outside tools) task scope [tc] start =
      turn (hd.outside tools) task scope start tc := by
    rw [turns]
    split
    · next heq => rw [heq, turns]
    · rfl
  obtain ⟨log', hnoted⟩ := turn_noted hj tools task scope start tc
  rw [hsingle] at ho hworld
  obtain rfl : log = log' := List.append_cancel_left (hworld.symm.trans hnoted.world)
  rw [ho] at hres
  generalize turn (hd.outside tools) task scope start tc = t at hnoted hres
  cases t with
  | next b =>
    have herr := (stubs_world_err (hd.outside tools) msg.callTools b).2.trans (hnoted.goesOn rfl)
    simp [Turn.close, finish, batchResult, herr, start] at hres
  | suspend => cases hres
  | stop => exact hnoted.fails (.inl rfl)
  | abort => exact hnoted.fails (.inr ⟨_, rfl⟩)

theorem completeChat_ran (hj : Journal hd ran) (w : Recorded σ) (call : TaskCall) (h : ChatHistory) :
    ran (completeChat hd w call h).1.1 = ran w.1 := by
  unfold completeChat
  split
  · rfl
  have hcomplete := hj.complete w.1 call (withInstruction call.task.systemInstruction h)
  split <;> next heq => rwa [heq] at hcomplete

theorem taskExec_noted (hj : Journal hd ran) (w : Recorded σ) (call : TaskCall)
    (hb : OpenBatch pre msg dn todo h) (hinput : call.input = (.history h, .chatHistory))
    (hhandler : call.task.handler = .executeToolCalls ∨ call.task.handler = .chatCompletion) :
    ∃ log, ran (taskExec hd w call).1.1 = ran w.1 ++ log ∧ (log.map (·.1)).Nodup ∧
      (call.task.handler = .executeToolCalls → todo.length = 1 →
        ∀ output e, (taskExec hd w call).2 = .failed output e → ∀ n ∈ log, n.2 = false) := by
  unfold taskExec handlerExec
  split
  · exact ⟨[], by simp, by simp, by simp⟩
  rcases hhandler with hhandler | hhandler
  · obtain ⟨log, hran, hnd, hfails⟩ := executeToolCalls_noted hj call.tools
      (toolTask call call.task) w.1 hb
    simp only [hhandler, execToolCalls, hinput]
    exact ⟨log, hran, hnd, fun _ => hfails⟩
  · obtain ⟨log, hran, hnd, -⟩ := executeToolCalls_noted hj call.tools
      (toolTask call (withConfig call.task)) w.1 hb
    simp only [hhandler, chatCompletion, hinput, flushThenComplete]
    split
    · change ran (runBatch hd w call (withConfig call.task) h).1.1 = _ at hran
      refine ⟨log, ?_, hnd, by simp⟩
      generalize runBatch hd w call (withConfig call.task) h = p at hran
      split
      · exact hran
      · exact hran
      · rw [completeChat_ran hj, hran]
      · rw [completeChat_ran hj, hran]
    · exact ⟨[], by simp [completeChat_ran hj], by simp, by simp⟩

/-! ## 3. All attempts -/

section

variable {env : EnvOutside (Recorded σ)} {c : RunConfig} {m : Memory} {task : TaskDefinition}
  {input : Typed} {w₀ : Recorded σ}

/-- `w` is the world before attempt `k` at the task: the attempts before it were steps of the
interpreter that went on to the next one. -/
inductive Tried (hd : Handlers σ α ρ) (env : EnvOutside (Recorded σ)) (c : RunConfig)
    (m : Memory) (task : TaskDefinition) (input : Typed) (w₀ : Recorded σ) :
    Nat → Recorded σ → Prop
  | first : Tried hd env c m task input w₀ 0 w₀
  | again {k : Nat} {w w' : Recorded σ} (before : Tried hd env c m task input w₀ k w)
      (next : step env c (taskExec hd) ⟨w, m, .attempting task input k⟩ =
        .next ⟨w', m, .attempting task input (k + 1)⟩) :
      Tried hd env c m task input w₀ (k + 1) w'

theorem step_retried {exec : Recorded σ → TaskCall → Recorded σ × TaskResult} {w w' : Recorded σ}
    {k : Nat} (h : step env c exec ⟨w, m, .attempting task input k⟩ =
      .next ⟨w', m, .attempting task input (k + 1)⟩) :
    k < task.maxRetries ∧
      ∃ output e, exec w (taskCall env c m task input k) = (w', .failed output e) := by
  have hspec := step_spec env c exec ⟨w, m, .attempting task input k⟩
  generalize hr : (⟨w', m, .attempting task input (k + 1)⟩ : Run (Recorded σ)) = r at h
  rw [h] at hspec
  cases hspec with
  | attempts made follows =>
    cases follows with
    | goesOn | failsOver => cases (Run.mk.inj hr).2.2
    | retries left =>
      cases hr
      exact ⟨left, _, _, made⟩

/-- **A completed call is not executed again.**  A call the journal has twice, over all attempts
at the task, had not completed the first time. -/
theorem completed_call_not_retried (hj : Journal hd ran)
    (hb : OpenBatch pre msg dn todo h)
    (hhandler : task.handler = .executeToolCalls ∨ task.handler = .chatCompletion)
    (hone : task.maxRetries = 0 ∨ task.handler = .executeToolCalls ∧ todo.length = 1)
    {k : Nat} {w : Recorded σ}
    (ha : Tried hd env c m task (.history h, .chatHistory) w₀ k w) :
    ∃ log, ran (taskExec hd w (taskCall env c m task (.history h, .chatHistory) k)).1.1 =
        ran w₀.1 ++ log ∧
      log.Pairwise fun n n' => n.1 = n'.1 → n.2 = false := by
  have hattempt : ∀ (w : Recorded σ) k, _ := fun w k => taskExec_noted hj w
    (taskCall env c m task (.history h, .chatHistory) k) hb rfl hhandler
  -- the attempts that failed have completed nothing
  have hbefore : ∃ log, ran w.1 = ran w₀.1 ++ log ∧ ∀ n ∈ log, n.2 = false := by
    induction ha with
    | first => exact ⟨[], by simp, by simp⟩
    | @again k w w' _ next ih =>
      obtain ⟨log, hran, hnone⟩ := ih
      obtain ⟨hk, output, e, hexec⟩ := step_retried next
      obtain ⟨log', hran', -, hfails⟩ := hattempt w k
      rw [hexec] at hran' hfails
      obtain ⟨hhandler, hlen⟩ := hone.resolve_left (by omega)
      exact ⟨log ++ log', by rw [hran', hran, List.append_assoc],
        List.forall_mem_append.mpr ⟨hnone, hfails hhandler hlen output e rfl⟩⟩
  obtain ⟨log, hran, hnone⟩ := hbefore
  obtain ⟨log', hran', hnd, -⟩ := hattempt w k
  refine ⟨log ++ log', by rw [hran', hran, List.append_assoc], List.pairwise_append.mpr ⟨?_, ?_, ?_⟩⟩
  · exact List.pairwise_of_forall_mem_list fun n hn _ _ _ => hnone n hn
  · exact (List.pairwise_map.mp hnd).imp fun hne heq => absurd heq hne
  · exact fun n hn _ _ _ => hnone n hn

end

/-- A provider that ends the task the first time it is handed the call `b`. -/
def notedHandlers : Handlers (List (String × Bool)) Unit String :=
  textHandlers fun w call _ =>
    if call.callID = "b" ∧ ("b", false) ∉ w then (w ++ [("b", false)], .ended "" "canceled")
    else (w ++ [(call.callID, true)], .done "ok")

def notedEnv : EnvOutside (Recorded (List (String × Bool))) := plainEnv

theorem notedHandlers_journal : Journal notedHandlers id where
  exec tools w call args := by
    by_cases h : call.callID = "b" ∧ ("b", false) ∉ w
    · simp [notedHandlers, textHandlers, plainHandlers, plainOutside, h, account]
    · simp [notedHandlers, textHandlers, plainHandlers, plainOutside, h, account, Except.isOk, Except.toBool]
  complete _ _ _ := rfl

def notedConfig : RunConfig := ⟨"chain", [runTools 1], 0, 4096, 0, .detached, [⟨"fs.read", "fs"⟩]⟩

/-- A transcript that ends in calls with the given ids. -/
def notedInput (ids : List String) : ChatHistory :=
  ⟨[⟨.assistant, "", "", ids.map fun id => ⟨id, "fs.read", ""⟩⟩], 0, 0⟩

def notedMemory : Memory := ⟨[], [], nothing, none, false⟩

/-- The call `a` completes, `b` fails, and the second attempt executes both. -/
theorem retried_batch_runs_a_call_again :
    ∃ w, Tried notedHandlers notedEnv notedConfig notedMemory (runTools 1)
        (.history (notedInput ["a", "b"]), .chatHistory) ([], []) 1 w ∧
      (taskExec notedHandlers w (taskCall notedEnv notedConfig notedMemory (runTools 1)
        (.history (notedInput ["a", "b"]), .chatHistory) 1)).1.1 =
          [("a", true), ("b", false), ("a", true), ("b", true)] :=
  ⟨_, .again .first rfl, by decide +kernel⟩

theorem completed_call_not_retried_single :
    ∃ w log, (taskExec notedHandlers w (taskCall notedEnv notedConfig notedMemory (runTools 1)
        (.history (notedInput ["b"]), .chatHistory) 1)).1.1 = log ∧
      log = [("b", false), ("b", true)] ∧ log.Pairwise fun n n' => n.1 = n'.1 → n.2 = false := by
  have hb : OpenBatch [] ⟨.assistant, "", "", [⟨"b", "fs.read", ""⟩]⟩ [] [⟨"b", "fs.read", ""⟩]
      (notedInput ["b"]) :=
    ⟨⟨rfl, by decide, by decide⟩, rfl, by decide, [], rfl, by simp, rfl⟩
  have hlast : Tried notedHandlers notedEnv notedConfig notedMemory (runTools 1)
      (.history (notedInput ["b"]), .chatHistory) ([], []) 1 _ := .again .first rfl
  obtain ⟨log, hran, hpw⟩ := completed_call_not_retried notedHandlers_journal hb (.inl rfl)
    (.inr ⟨rfl, rfl⟩) hlast
  exact ⟨_, log, hran, hran.symm.trans (by decide +kernel), hpw⟩

end Contenox.Engine
