/-
# Resume attempts, and the outcome they replay

A suspended run is resumed from its checkpoint's row, and may have to be resumed again: an attempt
fails, its process dies, a sweep comes by.  Here any number of attempts runs over one row.  An
attempt reads the row ONCE, when it begins, and loads the record it finds there into its store;
from then on the store answers the approved call.  So nothing that is written to the row later
reaches an attempt, and it is enough to follow what the stores hold (section 3).

Attempts may overlap: the claim on the row that keeps them apart can go stale, and nothing below
depends on it.  A process may die between any two calls, and leave what the calls before did.
-/
import Contenox.Engine.Gate

namespace Contenox.Engine

open Lib Relation

variable {σ α : Type} {w : GateWorld σ}

/-! ## 1. Attempts over one row -/

/-- An attempt that runs. -/
abbrev Attempt (σ : Type) := RunConfig × Run (Recorded (GateWorld σ))

/-- The row and the world, with the number of attempts begun so far and those that run. -/
structure Pool (σ : Type) extends Shared σ where
  begun : Nat
  attempts : List (Attempt σ)

section Steps

/-- The checkpoint has just been saved. -/
def Pool.saved (o : σ) : Pool σ := ⟨⟨o, some none, []⟩, 0, []⟩

def Attempt.world (a : Attempt σ) : GateWorld σ := a.2.world.1

/-- What an attempt sees when it is its turn: what all share, and its own store. -/
def Pool.seenBy (p : Pool σ) (w : GateWorld σ) : GateWorld σ :=
  ⟨p.toShared, w.attempt, w.memory⟩

def Pool.turnOf (p : Pool σ) (a : Attempt σ) : Run (Recorded (GateWorld σ)) :=
  { a.2 with world := (p.seenBy a.world, a.2.world.2) }

variable (g : Gate σ α) (hd : Handlers σ α Typed) (out : EnvOutside (Recorded (GateWorld σ)))
  (reg : σ → Registry) (cp : Checkpoint)

/-- The store an attempt begins with. -/
def loadGateStore : Option GateRecord → Except String Vars
  | none => .ok []
  | some raw =>
    match unmarshalGateResult g.codec raw with
    | .ok rec => .ok [(g.approvalID, rec)]
    | .error e => .error ("agentservice: decode recorded gate result for " ++ g.approvalID ++
        " (checkpoint retained with failure annotation): " ++ e)

/-- One step of an attempt. -/
def Pool.move (p : Pool σ) (a : Attempt σ) : Move (Recorded (GateWorld σ)) :=
  step out a.1 (taskExec (g.handlers hd)) (p.turnOf a)

/-- What a part of a step may do: calls through the gate, and changes to the world of the tools. -/
inductive Touch : GateWorld σ → GateWorld σ → Prop
  | call (tools : List ToolWithResolution) (w : GateWorld σ) (call : ToolsCall) (args : α) :
      Touch w (gatedExec g (hd.outside tools).exec w call args).1
  | outer (w : GateWorld σ) (o : σ) : Touch w { w with outer := o }

/-- What can happen to the row of a checkpoint and to the attempts over it. -/
inductive PoolStep : Pool σ → Pool σ → Prop
  /-- the world of the tools changes, the policy in it included -/
  | drift (p : Pool σ) (o : σ) : PoolStep p { p with outer := o }
  /-- the mission behind the approval is over, and the row is deleted -/
  | discard (p : Pool σ) : PoolStep p { p with row := none }
  | begin (p : Pool σ) {stored : Option GateRecord} {memory : Vars} {c : RunConfig}
      {a : Attempt σ} (hrow : p.row = some stored) (hload : loadGateStore g stored = .ok memory)
      (hresume : resumeRun out (reg p.outer) c cp (⟨p.toShared, p.begun, memory⟩, []) = .ok a) :
      PoolStep p { p with begun := p.begun + 1, attempts := p.attempts ++ [a] }
  | work (p : Pool σ) {l l' : List (Attempt σ)} {a : Attempt σ}
      {r : Run (Recorded (GateWorld σ))} (ha : p.attempts = l ++ a :: l')
      (hnext : p.move g hd out a = .next r) :
      PoolStep p { p with toShared := r.world.1.toShared, attempts := l ++ (a.1, r) :: l' }
  /-- the run ends or suspends again; the row is kept for a further attempt, or deleted -/
  | finish (p : Pool σ) {l l' : List (Attempt σ)} {a : Attempt σ} (kept : Bool)
      (ha : p.attempts = l ++ a :: l') (hover : ∀ r, p.move g hd out a ≠ .next r) :
      PoolStep p { p with
        outer := (p.move g hd out a).world.1.outer
        row := if kept then (p.move g hd out a).world.1.row else none
        log := (p.move g hd out a).world.1.log
        attempts := l ++ l' }
  /-- the process of an attempt dies -/
  | die (p : Pool σ) {l l' : List (Attempt σ)} {a : Attempt σ} {w : GateWorld σ}
      (ha : p.attempts = l ++ a :: l') (hw : ReflTransGen (Touch g hd) (p.seenBy a.world) w) :
      PoolStep p { p with toShared := w.toShared, attempts := l ++ l' }

/-- `PoolStep`, any number of times. -/
abbrev PoolRun : Pool σ → Pool σ → Prop := ReflTransGen (PoolStep g hd out reg cp)

end Steps

/-! ## 2. What a step can do -/

/-- An attempt at a task failed: it is made again, the failure is routed, or the run ends. -/
inductive FailsOver {W : Type} (c : RunConfig) (r : Run W) : Move W → Prop
  | retries {w : W} {task : TaskDefinition} {input : Typed} {retry : Nat}
      (phase : r.phase = .attempting task input retry)
      (left : retry < task.maxRetries) :
      FailsOver c r (.next ⟨w, r.mem, .attempting task input (retry + 1)⟩)
  | routes {w : W} {m : Memory} {task next : TaskDefinition} {input : Typed} {retry : Nat}
      (phase : r.phase = .attempting task input retry)
      (edge : task.transition.onFailure ≠ "")
      (target : findTaskByID c.tasks task.transition.onFailure = some next) :
      FailsOver c r (.next ⟨w, m, .entering next true⟩)
  | ends {w : W} {err : String} : FailsOver c r (.finished w (.error err))

section Effect

variable {ρ : Type} {hd : Handlers σ α ρ} {E F : σ → σ → Prop}

/-- A step is calm, or the attempt at its task failed. -/
theorem step_effect (h : Effects hd E F) (out : EnvOutside (Recorded σ)) (c : RunConfig)
    (r : Run (Recorded σ)) :
    E r.world.1 (step out c (taskExec hd) r).world.1 ∨
      F r.world.1 (step out c (taskExec hd) r).world.1 ∧
        FailsOver c r (step out c (taskExec hd) r) := by
  have hspec := step_spec out c (taskExec hd) r
  generalize step out c (taskExec hd) r = mv at hspec
  cases hspec with
  | ends | enters => exact .inl (h.refl _)
  | @attempts w w' m task input retry res mv made follows =>
    have htask := taskExec_effect h w (taskCall out c m task input retry)
    rw [made] at htask
    rw [follows.world]
    cases htask with
    | calm hE => exact .inl hE
    | failed hF =>
      refine .inr ⟨hF, ?_⟩
      cases follows with
      | ends => exact .ends
      | retries left => exact .retries rfl left
      | failsOver edge target => exact .routes rfl edge target

end Effect

section Moves

variable {g : Gate σ α} {hd : Handlers σ α Typed} {out : EnvOutside (Recorded (GateWorld σ))}
  {reg : σ → Registry} {cp : Checkpoint} {w' : GateWorld σ}

theorem Calm.effect (h : Calm g w w') : ∃ new, GateEffect g w new w' := by
  obtain ⟨new, heff, -⟩ := h
  exact ⟨new, heff⟩

theorem Loses.effect (h : Loses g w w') : ∃ new, GateEffect g w new w' := by
  obtain ⟨new, e, heff, -⟩ := h
  exact ⟨new ++ [e], heff⟩

/-- A move of an attempt has an effect the gate allows. -/
theorem move_effect (hd : Handlers σ α Typed) (out : EnvOutside (Recorded (GateWorld σ)))
    (happroved : g.approved = true) (p : Pool σ) (a : Attempt σ) :
    ∃ new, GateEffect g (p.seenBy a.world) new (p.move g hd out a).world.1 := by
  rcases step_effect (gate_effects happroved hd) out a.1 (p.turnOf a) with hcalm | ⟨hloses, -⟩
  · exact hcalm.effect
  · exact hloses.effect

theorem touch_effect (happroved : g.approved = true) (h : ReflTransGen (Touch g hd) w w') :
    ∃ new, GateEffect g w new w' := by
  induction h with
  | refl => exact ⟨[], GateEffect.outer w w.outer⟩
  | @tail b c _ hstep ih =>
    obtain ⟨new, heff⟩ := ih
    cases hstep with
    | call tools _ call args =>
      rcases (gate_effects happroved hd).exec tools b call args with hcalm | ⟨hloses, -⟩
      · obtain ⟨new', heff'⟩ := hcalm.effect
        exact ⟨_, heff.trans heff'⟩
      · obtain ⟨new', heff'⟩ := hloses.effect
        exact ⟨_, heff.trans heff'⟩
    | outer _ o => exact ⟨_, heff.trans (GateEffect.outer b o)⟩

/-- Everything a step of the pool can do to the row, the log and the stores. -/
inductive Moves (g : Gate σ α) (p p' : Pool σ) : Prop
  | quiet (log : p'.log = p.log) (row : p'.row = p.row ∨ p'.row = none)
      (begun : p'.begun = p.begun) (attempts : p'.attempts = p.attempts)
  | begins {stored : Option GateRecord} {a : Attempt σ} (stands : p.row = some stored)
      (load : loadGateStore g stored = .ok a.world.memory) (number : a.world.attempt = p.begun)
      (log : p'.log = p.log) (row : p'.row = p.row) (begun : p'.begun = p.begun + 1)
      (attempts : p'.attempts = p.attempts ++ [a])
  | works {l l' : List (Attempt σ)} {a : Attempt σ} {new : List GateEvent} {w : GateWorld σ}
      (stands : p.attempts = l ++ a :: l') (eff : GateEffect g (p.seenBy a.world) new w)
      (log : p'.log = w.log) (row : p'.row = w.row ∨ p'.row = none) (begun : p'.begun = p.begun)
      (attempts : p'.attempts = l ++ l' ∨ ∃ a' : Attempt σ, a'.world = w ∧
        p'.attempts = l ++ a' :: l')

theorem moves_of_step (happroved : g.approved = true) {p p' : Pool σ}
    (h : PoolStep g hd out reg cp p p') : Moves g p p' := by
  cases h with
  | drift o => exact .quiet rfl (.inl rfl) rfl rfl
  | discard => exact .quiet rfl (.inr rfl) rfl rfl
  | @begin stored memory c a hrow hload hresume =>
    obtain ⟨c', r⟩ := a
    obtain ⟨-, task, -, -, -, -, hr⟩ := resumeRun_ok hresume
    have hworld : Attempt.world (c', r) = ⟨p.toShared, p.begun, memory⟩ := by
      unfold Attempt.world
      rw [hr]
    refine .begins hrow ?_ ?_ rfl rfl rfl rfl
    · rw [hworld]
      exact hload
    · rw [hworld]
  | @work l l' a r ha hnext =>
    obtain ⟨new, heff⟩ := move_effect hd out happroved p a
    rw [hnext] at heff
    exact .works ha heff rfl (.inl rfl) rfl (.inr ⟨(a.1, r), rfl, rfl⟩)
  | @finish l l' a kept ha hover =>
    obtain ⟨new, heff⟩ := move_effect hd out happroved p a
    refine .works ha heff rfl ?_ rfl (.inl rfl)
    cases kept with
    | true => exact .inl rfl
    | false => exact .inr rfl
  | @die l l' a w ha hw =>
    obtain ⟨new, heff⟩ := touch_effect happroved hw
    exact .works ha heff rfl (.inl rfl) rfl (.inl rfl)

end Moves

/-! ## 3. Rows, numbers and stores -/

variable {rec : Typed} {memory : Vars}

section Invariants

variable {g : Gate σ α} {p p' p₀ : Pool σ} {l l' : List (Attempt σ)} {a : Attempt σ}
  {new log : List GateEvent} {raw₀ raw : GateRecord}

/-- The numbers of the attempts that run. -/
def Pool.numbers (p : Pool σ) : List Nat := p.attempts.map fun a => a.world.attempt

/-- Attempts are numbered apart, and a record in the row is the outcome of a call on the log. -/
structure Grounded (g : Gate σ α) (p : Pool σ) : Prop where
  numbered : ∀ n ∈ p.numbers, n < p.begun
  distinct : p.numbers.Nodup
  grounded : ∀ raw, p.row = some (some raw) → ∃ e ∈ p.log, e.Wrote g raw

section Works

variable (stands : p.attempts = l ++ a :: l') (eff : GateEffect g (p.seenBy a.world) new w)
  (attempts : p'.attempts = l ++ l' ∨ ∃ a' : Attempt σ, a'.world = w ∧ p'.attempts = l ++ a' :: l')

include stands eff attempts

/-- A working attempt keeps its number. -/
theorem numbers_works : p'.numbers.Sublist p.numbers := by
  unfold Pool.numbers
  rw [stands]
  rcases attempts with heq | ⟨a', hworld, heq⟩
  · rw [heq, List.map_append, List.map_append, List.map_cons]
    exact List.Sublist.append (List.Sublist.refl _) (List.sublist_cons_self _ _)
  have hnumber : a'.world.attempt = a.world.attempt := by
    rw [hworld]
    exact eff.attempt
  rw [heq, List.map_append, List.map_append, List.map_cons, List.map_cons, hnumber]

/-- Who runs after an attempt has worked: who ran before, and the attempt in its new world. -/
theorem mem_works {b : Attempt σ} (hb : b ∈ p'.attempts) :
    b ∈ p.attempts ∨ b.world.attempt = a.world.attempt ∧ b.world = w := by
  have hsub : l ++ l' ⊆ p.attempts := by
    rw [stands]
    exact ((List.sublist_cons_self a l').append_left l).subset
  rcases attempts with heq | ⟨a', hworld, heq⟩
  · exact .inl (hsub (heq ▸ hb))
  rw [heq, List.perm_middle.mem_iff] at hb
  rcases List.mem_cons.mp hb with rfl | hb
  · exact .inr ⟨hworld ▸ eff.attempt, hworld⟩
  · exact .inl (hsub hb)

end Works

/-- What is recorded has happened. -/
theorem Grounded.step (h : Grounded g p) (hmoves : Moves g p p') : Grounded g p' := by
  cases hmoves with
  | quiet log row begun attempts =>
    have hnumbers : p'.numbers = p.numbers := by
      unfold Pool.numbers
      rw [attempts]
    refine ⟨?_, ?_, ?_⟩
    · rw [hnumbers, begun]
      exact h.numbered
    · rw [hnumbers]
      exact h.distinct
    intro raw hraw
    rw [log]
    rcases row with heq | heq
    · exact h.grounded raw (heq.symm.trans hraw)
    · rw [heq] at hraw
      cases hraw
  | @begins stored a stands load number log row begun attempts =>
    have hnumbers : p'.numbers = p.numbers ++ [p.begun] := by
      unfold Pool.numbers
      rw [attempts, List.map_append, List.map_singleton, number]
    refine ⟨?_, ?_, ?_⟩
    · rw [hnumbers, begun]
      exact List.forall_mem_append.mpr ⟨fun n hn => Nat.lt_succ_of_lt (h.numbered n hn),
        List.forall_mem_singleton.mpr (Nat.lt_succ_self _)⟩
    · rw [hnumbers]
      refine List.nodup_append.mpr ⟨h.distinct, List.pairwise_singleton _ _, ?_⟩
      intro n hn n' hn'
      rw [List.mem_singleton.mp hn']
      exact Nat.ne_of_lt (h.numbered n hn)
    · intro raw hraw
      rw [log]
      exact h.grounded raw (row.symm.trans hraw)
  | @works l l' a new w stands eff log row begun attempts =>
    have hnumbers := numbers_works stands eff attempts
    refine ⟨?_, hnumbers.nodup h.distinct, ?_⟩
    · intro n hn
      rw [begun]
      exact h.numbered n (hnumbers.subset hn)
    · intro raw hraw
      have hlog : p'.log = p.log ++ new := log.trans eff.log
      rcases row with heq | heq
      · rw [hlog]
        rcases eff.row with hsame | ⟨e, he, raw', hwrote, hrow⟩
        · have hstood : p.row = some (some raw) := hsame.symm.trans (heq.symm.trans hraw)
          obtain ⟨e, he, hwrote⟩ := h.grounded raw hstood
          exact ⟨e, List.mem_append_left _ he, hwrote⟩
        · have hraw' : raw' = raw :=
            Option.some.inj (Option.some.inj (hrow.symm.trans (heq.symm.trans hraw)))
          exact ⟨e, List.mem_append_right _ he, hraw' ▸ hwrote⟩
      · rw [heq] at hraw
        cases hraw

/-- `raw` is the record of a call on the log, and the one record there is unless an attempt that
ran at `p₀` may have written another. -/
def Stands (g : Gate σ α) (p₀ : Pool σ) (raw₀ : GateRecord) (log : List GateEvent)
    (raw : GateRecord) : Prop :=
  (∃ e ∈ log, e.Wrote g raw) ∧ (p₀.attempts = [] → raw = raw₀)

theorem Stands.append (h : Stands g p₀ raw₀ log raw) (new : List GateEvent) :
    Stands g p₀ raw₀ (log ++ new) raw := by
  obtain ⟨⟨e, he, hwrote⟩, hone⟩ := h
  exact ⟨⟨e, List.mem_append_left _ he, hwrote⟩, hone⟩

/-- `rec` is what a record that stands reads back as. -/
def ReadsBack (g : Gate σ α) (p₀ : Pool σ) (raw₀ : GateRecord) (log : List GateEvent)
    (rec : Typed) : Prop :=
  ∃ raw, Stands g p₀ raw₀ log raw ∧ unmarshalGateResult g.codec raw = .ok rec

theorem ReadsBack.append (h : ReadsBack g p₀ raw₀ log rec) (new : List GateEvent) :
    ReadsBack g p₀ raw₀ (log ++ new) rec := by
  obtain ⟨raw, hstands, hread⟩ := h
  exact ⟨raw, hstands.append new, hread⟩

/-- What holds after a pool `p₀` whose row held `raw₀`.  An attempt begun since has the record in
its store, so it neither runs the call nor writes the row. -/
structure Replaying (g : Gate σ α) (p₀ : Pool σ) (raw₀ : GateRecord) (p : Pool σ) : Prop where
  later : p₀.begun ≤ p.begun
  fresh : p₀.attempts = [] → ∀ n ∈ p.numbers, p₀.begun ≤ n
  row : p.row = none ∨ ∃ raw, p.row = some (some raw) ∧ Stands g p₀ raw₀ p.log raw
  store : ∀ a ∈ p.attempts, p₀.begun ≤ a.world.attempt →
    ∃ rec, ReadsBack g p₀ raw₀ p.log rec ∧ a.world.memory.lookup g.approvalID = some rec
  log : ∃ new, p.log = p₀.log ++ new ∧ ∀ e ∈ new, p₀.begun ≤ e.attempt →
    ∃ rec, ReadsBack g p₀ raw₀ p.log rec ∧ e.Replays g rec

theorem loadGateStore_some (h : loadGateStore g (some raw) = .ok memory) :
    ∃ rec, unmarshalGateResult g.codec raw = .ok rec ∧ memory.lookup g.approvalID = some rec := by
  unfold loadGateStore at h
  dsimp only at h
  split at h
  · rename_i rec hread
    cases h
    exact ⟨rec, hread, by simp⟩
  · cases h

variable (h : Replaying g p₀ raw₀ p)

include h

theorem Replaying.quiet
    (log : p'.log = p.log) (row : p'.row = p.row ∨ p'.row = none) (begun : p'.begun = p.begun)
    (attempts : p'.attempts = p.attempts) : Replaying g p₀ raw₀ p' where
  later := begun ▸ h.later
  fresh := by
    have hnumbers : p'.numbers = p.numbers := by
      unfold Pool.numbers
      rw [attempts]
    rw [hnumbers]
    exact h.fresh
  row := by
    rcases row with heq | heq
    · rw [heq, log]
      exact h.row
    · exact .inl heq
  store := by
    rw [attempts, log]
    exact h.store
  log := by
    rw [log]
    exact h.log

theorem Replaying.begins {stored : Option GateRecord} (stands : p.row = some stored)
    (load : loadGateStore g stored = .ok a.world.memory) (number : a.world.attempt = p.begun)
    (log : p'.log = p.log) (row : p'.row = p.row) (begun : p'.begun = p.begun + 1)
    (attempts : p'.attempts = p.attempts ++ [a]) : Replaying g p₀ raw₀ p' where
  later := by
    rw [begun]
    exact Nat.le_succ_of_le h.later
  fresh := by
    intro hnone
    unfold Pool.numbers
    rw [attempts, List.map_append, List.map_singleton, number]
    exact List.forall_mem_append.mpr ⟨h.fresh hnone, List.forall_mem_singleton.mpr h.later⟩
  row := by
    rw [row, log]
    exact h.row
  store := by
    rw [attempts, log]
    intro b hb hlater
    rcases List.mem_append.mp hb with hb | hb
    · exact h.store b hb hlater
    rw [List.mem_singleton.mp hb]
    -- the row is there to be read, so it holds a record
    rcases h.row with hnone | ⟨raw, hraw, hstands⟩
    · rw [hnone] at stands
      cases stands
    rw [hraw] at stands
    rw [← Option.some.inj stands] at load
    obtain ⟨rec, hread, hmem⟩ := loadGateStore_some load
    exact ⟨rec, ⟨raw, hstands, hread⟩, hmem⟩
  log := by
    rw [log]
    exact h.log

theorem Replaying.works (stands : p.attempts = l ++ a :: l')
    (eff : GateEffect g (p.seenBy a.world) new w) (log : p'.log = w.log)
    (row : p'.row = w.row ∨ p'.row = none) (begun : p'.begun = p.begun)
    (attempts : p'.attempts = l ++ l' ∨ ∃ a' : Attempt σ, a'.world = w ∧
      p'.attempts = l ++ a' :: l') : Replaying g p₀ raw₀ p' := by
  have ha : a ∈ p.attempts := by
    rw [stands]
    exact List.mem_append_right _ List.mem_cons_self
  have hlog : p'.log = p.log ++ new := log.trans eff.log
  obtain ⟨before, hbefore, hreplays⟩ := h.log
  refine ⟨begun ▸ h.later, ?_, ?_, ?_, before ++ new, by rw [hlog, hbefore, List.append_assoc], ?_⟩
  · intro hnone n hn
    exact h.fresh hnone n ((numbers_works stands eff attempts).subset hn)
  · rcases row with heq | heq
    · rw [heq, hlog]
      rcases eff.row with hsame | ⟨e, he, raw, hwrote, hrow⟩
      · rw [hsame]
        rcases h.row with hnone | ⟨raw, hraw, hstands⟩
        · exact .inl hnone
        · exact .inr ⟨raw, hraw, hstands.append new⟩
      · -- only an attempt that already ran at the start can have written the row
        refine .inr ⟨raw, hrow, ⟨e, List.mem_append_right _ he, hwrote⟩, ?_⟩
        intro hnone
        have hlater : p₀.begun ≤ a.world.attempt :=
          h.fresh hnone _ (List.mem_map.mpr ⟨a, ha, rfl⟩)
        obtain ⟨rec, -, hmem⟩ := h.store a ha hlater
        obtain ⟨-, hsame, -⟩ := eff.replays rec hmem
        rcases h.row with hgone | ⟨raw', hraw', -, hone⟩
        · rw [hrow] at hsame
          cases hsame.trans hgone
        have hsame' := (hrow.symm.trans hsame).trans hraw'
        rw [Option.some.inj (Option.some.inj hsame')]
        exact hone hnone
    · exact .inl heq
  · rw [hlog]
    intro b hb hlater
    rcases mem_works stands eff attempts hb with hb | ⟨hsame, hb⟩
    · obtain ⟨rec, hreads, hmem⟩ := h.store b hb hlater
      exact ⟨rec, hreads.append new, hmem⟩
    · obtain ⟨rec, hreads, hmem⟩ := h.store a ha (hsame ▸ hlater)
      obtain ⟨hmem', -, -⟩ := eff.replays rec hmem
      exact ⟨rec, hreads.append new, by rw [hb]; exact hmem'⟩
  · rw [hlog]
    intro e he hlater
    rcases List.mem_append.mp he with he | he
    · obtain ⟨rec, hreads, hrep⟩ := hreplays e he hlater
      exact ⟨rec, hreads.append new, hrep⟩
    rw [eff.own e he] at hlater
    obtain ⟨rec, hreads, hmem⟩ := h.store a ha hlater
    obtain ⟨-, -, hnew⟩ := eff.replays rec hmem
    exact ⟨rec, hreads.append new, hnew e he⟩

/-- **Every move replays what is recorded.** -/
theorem Replaying.step (hmoves : Moves g p p') : Replaying g p₀ raw₀ p' := by
  cases hmoves with
  | quiet log row begun attempts => exact h.quiet log row begun attempts
  | begins stands load number log row begun attempts =>
    exact h.begins stands load number log row begun attempts
  | works stands eff log row begun attempts => exact h.works stands eff log row begun attempts

omit h

/-- A pool whose row holds a record, at the beginning of what follows it. -/
theorem Replaying.start (hgrounded : Grounded g p)
    (hrow : p.row = some (some raw)) : Replaying g p raw p where
  later := Nat.le_refl _
  fresh := by
    intro hnone n hn
    unfold Pool.numbers at hn
    rw [hnone] at hn
    cases hn
  row := .inr ⟨raw, hrow, hgrounded.grounded raw hrow, fun _ => rfl⟩
  store := by
    intro a ha hlater
    have hlt := hgrounded.numbered _ (List.mem_map.mpr ⟨a, ha, rfl⟩)
    exact absurd hlt (Nat.not_lt.mpr hlater)
  log := ⟨[], (List.append_nil _).symm, by simp⟩

/-- What holds of the attempt `k`, once its store has `rec`, after a pool `p₀`. -/
structure Holding (g : Gate σ α) (k : Nat) (rec : Typed) (p₀ p : Pool σ) : Prop where
  past : k < p.begun
  store : ∀ a ∈ p.attempts, a.world.attempt = k →
    a.world.memory.lookup g.approvalID = some rec
  log : ∃ new, p.log = p₀.log ++ new ∧ ∀ e ∈ new, e.attempt = k → e.Replays g rec

theorem Holding.step {k : Nat} (h : Holding g k rec p₀ p) (hmoves : Moves g p p') :
    Holding g k rec p₀ p' := by
  obtain ⟨before, hbefore, hreplays⟩ := h.log
  cases hmoves with
  | quiet log row begun attempts =>
    refine ⟨begun ▸ h.past, ?_, before, log.trans hbefore, hreplays⟩
    rw [attempts]
    exact h.store
  | @begins stored a stands load number log row begun attempts =>
    refine ⟨?_, ?_, before, log.trans hbefore, hreplays⟩
    · rw [begun]
      exact Nat.lt_succ_of_lt h.past
    rw [attempts]
    intro b hb hk
    rcases List.mem_append.mp hb with hb | hb
    · exact h.store b hb hk
    · rw [List.mem_singleton.mp hb, number] at hk
      exact absurd h.past (hk ▸ Nat.lt_irrefl _)
  | @works l l' a new w stands eff log row begun attempts =>
    have ha : a ∈ p.attempts := by
      rw [stands]
      exact List.mem_append_right _ List.mem_cons_self
    refine ⟨begun ▸ h.past, ?_, before ++ new,
      by rw [log.trans eff.log, ← List.append_assoc, ← hbefore]; rfl, ?_⟩
    · intro b hb hk
      rcases mem_works stands eff attempts hb with hb | ⟨hsame, hb⟩
      · exact h.store b hb hk
      · rw [hb]
        exact (eff.replays rec (h.store a ha (hsame.symm.trans hk))).1
    · intro e he hk
      rcases List.mem_append.mp he with he | he
      · exact hreplays e he hk
      · have hmem := h.store a ha ((eff.own e he).symm.trans hk)
        exact (eff.replays rec hmem).2.2 e he

end Invariants

/-! ## 4. Every run -/

section

variable {g : Gate σ α} {hd : Handlers σ α Typed} {out : EnvOutside (Recorded (GateWorld σ))}
  {reg : σ → Registry} {cp : Checkpoint} {p : Pool σ}

/-- The pool after an attempt has made a step that goes on. -/
def Pool.worked (p : Pool σ) (l : List (Attempt σ)) (a : Attempt σ)
    (r : Run (Recorded (GateWorld σ))) (l' : List (Attempt σ)) : Pool σ :=
  { p with toShared := r.world.1.toShared, attempts := l ++ (a.1, r) :: l' }

/-- What every move keeps, every run keeps. -/
theorem inv_of_run (happroved : g.approved = true) {Inv : Pool σ → Prop}
    (hstep : ∀ {p p'}, Inv p → Moves g p p' → Inv p') {q : Pool σ}
    (h : PoolRun g hd out reg cp p q) (hp : Inv p) : Inv q := by
  induction h with
  | refl => exact hp
  | tail _ hmove ih => exact hstep ih (moves_of_step happroved hmove)

/-- In every run, what is recorded has happened. -/
theorem grounded_of_run (happroved : g.approved = true) {o : σ}
    (h : PoolRun g hd out reg cp (Pool.saved o) p) : Grounded g p :=
  inv_of_run happroved Grounded.step h
    ⟨by simp [Pool.numbers, Pool.saved], List.nodup_nil, by simp [Pool.saved]⟩

/-- A step in which an outcome is lost to the row makes no call after that, and its attempt at
the task fails. -/
theorem move_lost (hd : Handlers σ α Typed) (out : EnvOutside (Recorded (GateWorld σ)))
    (happroved : g.approved = true) (p : Pool σ) (a : Attempt σ) :
    ∃ new, (p.move g hd out a).world.1.log = p.log ++ new ∧
      ∀ e ∈ new, e.unrecorded = true → new.getLast? = some e ∧
        FailsOver a.1 (p.turnOf a) (p.move g hd out a) ∧ e.Lost g (p.move g hd out a).world.1 := by
  rcases step_effect (gate_effects happroved hd) out a.1 (p.turnOf a) with
    ⟨new, heff, hrec⟩ | ⟨⟨new, e₀, heff, hrec, hlost⟩, hover⟩
  · refine ⟨new, heff.log, ?_⟩
    intro e he hun
    rw [hrec e he] at hun
    cases hun
  · refine ⟨new ++ [e₀], heff.log, ?_⟩
    intro e he hun
    rcases List.mem_append.mp he with he | he
    · rw [hrec e he] at hun
      cases hun
    · rw [List.mem_singleton.mp he]
      exact ⟨List.getLast?_concat, hover, hlost⟩

/-- The store of the attempt that goes on after a step, and no other attempt has its number. -/
theorem holding_worked (hgrounded : Grounded g p) {l l' : List (Attempt σ)} {a : Attempt σ}
    {r : Run (Recorded (GateWorld σ))} (ha : p.attempts = l ++ a :: l')
    (hmem : r.world.1.memory.lookup g.approvalID = some rec) :
    Holding g a.world.attempt rec (p.worked l a r l') (p.worked l a r l') where
  past := hgrounded.numbered _ (List.mem_map.mpr ⟨a, by simp [ha], rfl⟩)
  store := by
    intro b hb hk
    have hdistinct := hgrounded.distinct
    unfold Pool.numbers at hdistinct
    rw [ha, List.map_append, List.map_cons, List.nodup_middle, List.nodup_cons,
      ← List.map_append] at hdistinct
    rcases List.mem_cons.mp (List.perm_middle.mem_iff.mp hb) with rfl | hb
    · exact hmem
    · exact absurd (List.mem_map.mpr ⟨b, hb, hk⟩) hdistinct.1
  log := ⟨[], (List.append_nil _).symm, by simp⟩

/-- Any number of attempts over the row of an approved call.  Once the row holds a record, it is
that of the outcome of a run of the call, and the row has one until it is deleted.  In every
attempt begun after that, a call under the approved id does not run unless the policy lets it
through by then; on the approve tier it is answered with what the record reads back as, and the
record is the same one, unless an attempt was still running when it was written.

Where an outcome cannot be recorded, its call is the last one of the step, and the attempt at the
task fails: the run ends with an error, unless the task has attempts left or an edge for
failures.  If it goes on, the same attempt does not run the call again unless the policy lets it
through, and on the approve tier answers it with the outcome. -/
theorem recorded_outcome_replayed (g : Gate σ α) (hd : Handlers σ α Typed)
    (out : EnvOutside (Recorded (GateWorld σ))) (reg : σ → Registry) (cp : Checkpoint)
    (happroved : g.approved = true) {o : σ} {p : Pool σ}
    (hp : PoolRun g hd out reg cp (Pool.saved o) p) :
    (∀ raw, p.row = some (some raw) →
      (∃ e ∈ p.log, e.Wrote g raw) ∧
      ∀ q, PoolRun g hd out reg cp p q →
        (q.row = none ∨ ∃ raw', q.row = some (some raw') ∧ Stands g p raw q.log raw') ∧
        ∃ new, q.log = p.log ++ new ∧ ∀ e ∈ new, p.begun ≤ e.attempt →
          e.callID = g.approvalID → (e.tier ≠ .allow → e.ran = none) ∧
            (e.tier = .approve → ∃ rec, ReadsBack g p raw q.log rec ∧ e.result = .done rec)) ∧
    ∀ l a l', p.attempts = l ++ a :: l' →
      ∃ new, (p.move g hd out a).world.1.log = p.log ++ new ∧
        ∀ e ∈ new, e.unrecorded = true → new.getLast? = some e ∧
          FailsOver a.1 (p.turnOf a) (p.move g hd out a) ∧
          e.callID = g.approvalID ∧ ∃ res, e.ran = some (.done res) ∧
            ∀ r, p.move g hd out a = .next r → ∀ q, PoolRun g hd out reg cp (p.worked l a r l') q →
                ∃ new', q.log = (p.worked l a r l').log ++ new' ∧
                  ∀ e' ∈ new', e'.attempt = a.world.attempt → e'.callID = g.approvalID →
                    (e'.tier ≠ .allow → e'.ran = none) ∧
                    (e'.tier = .approve → e'.result = .done res) := by
  have hgrounded := grounded_of_run happroved hp
  refine ⟨?_, ?_⟩
  · intro raw hrow
    refine ⟨hgrounded.grounded raw hrow, ?_⟩
    intro q hq
    have hreplaying := inv_of_run happroved Replaying.step hq (.start hgrounded hrow)
    refine ⟨hreplaying.row, ?_⟩
    obtain ⟨new, hlog, hnew⟩ := hreplaying.log
    refine ⟨new, hlog, ?_⟩
    intro e he hlater hid
    obtain ⟨rec, hreads, hrep⟩ := hnew e he hlater
    obtain ⟨hran, hresult⟩ := hrep hid
    exact ⟨hran, fun happrove => ⟨rec, hreads, hresult happrove⟩⟩
  · intro l a l' ha
    obtain ⟨new, hlog, hnew⟩ := move_lost hd out happroved p a
    refine ⟨new, hlog, ?_⟩
    intro e he hun
    obtain ⟨hlast, hover, -, hid, res, hran, hmem⟩ := hnew e he hun
    refine ⟨hlast, hover, hid, res, hran, ?_⟩
    intro r hnext q hq
    rw [hnext] at hmem
    have hholding := inv_of_run happroved Holding.step hq (holding_worked hgrounded ha hmem)
    obtain ⟨new', hlog', hnew'⟩ := hholding.log
    exact ⟨new', hlog', hnew'⟩

end

/-! ## 5. One call, resumed twice -/

/-- Texts are their own encoding. -/
def textCodec : Codec where
  marshal
    | .str s => .ok s
    | _ => .error "unsupported value"
  unmarshal _ s := .ok (.str s)

/-- A tool that always runs, in a world that says whether the policy allows it by now. -/
def readHandlers : Handlers Bool Unit Typed :=
  plainHandlers (fun r text => (.str text, r.2)) (fun _ => .ok "ran") id
    fun w _ _ => (w, .done (.str "ran", .string))

/-- The gate of the call `a`; the row may refuse to be written. -/
def readGate (updateFails : Option String) : Gate Bool Unit where
  approvalID := "a"
  approved := true
  codec := textCodec
  precheck _ _ _ := none
  evaluate allowed _ _ := .ok ⟨some (if allowed then .allow else .approve), "", none, ""⟩
  denyMessage _ _ := ""
  gateOnApproval w call _ _ := (w, .pending call.callID)
  updateFails _ := updateFails

/-- The task the run suspended in.  Without a branch it is the chain's last one; with one that
never fires, its run ends with an error. -/
def readTask (retries : Int) (branches : List TransitionBranch) : TaskDefinition :=
  { bareTask "run_tools" .executeToolCalls (some ⟨some ["fs"], []⟩) none with
    retryOnFailure := retries, transition := ⟨"", branches⟩ }

def neverFires : List TransitionBranch := [⟨.equals, "never", "end", ""⟩]

def readCheckpoint (task : TaskDefinition) : Checkpoint where
  approvalID := "a"
  pendingCalls := [⟨"a", "fs.read", ""⟩]
  tasks := [task]
  taskID := "run_tools"
  retryIndex := 0
  vars := []
  edgeCounts := []
  history := ⟨[⟨.assistant, "", "", [⟨"a", "fs.read", ""⟩]⟩], 0, 0⟩
  runtime := .detached
  contextLength := 0

/-- The attempt that begins in a pool, with the store it loads. -/
def readAttempt (task : TaskDefinition) (p : Pool Bool) (memory : Vars) : Attempt Bool :=
  (⟨"chain", [task], 0, 4096, 0, .detached, [⟨"fs.read", "fs"⟩]⟩,
    ⟨(⟨p.toShared, p.begun, memory⟩, []),
      ⟨restoreVars (readCheckpoint task), [], readTranscript, none, false⟩,
      .attempting task readTranscript 0⟩)

/-- An attempt begins and makes its one step, after which the row is kept. -/
def attempted (g : Gate Bool Unit) (task : TaskDefinition) (p : Pool Bool) (memory : Vars) :
    Pool Bool :=
  let w := (p.move g readHandlers plainEnv (readAttempt task p memory)).world.1
  ⟨⟨w.outer, w.row, w.log⟩, p.begun + 1, []⟩

theorem attempted_run {g : Gate Bool Unit} {task : TaskDefinition} {p : Pool Bool}
    (stored : Option GateRecord) (hidle : p.attempts = []) (hrow : p.row = some stored)
    (hload : loadGateStore g stored = .ok memory)
    (hresume : resumeRun plainEnv fsRegistry ⟨"chain", [], 0, 4096, 0, .detached, []⟩
      (readCheckpoint task) (⟨p.toShared, p.begun, memory⟩, []) = .ok (readAttempt task p memory))
    (hover : ∀ r, p.move g readHandlers plainEnv (readAttempt task p memory) ≠ .next r) :
    PoolRun g readHandlers plainEnv (fun _ => fsRegistry) (readCheckpoint task) p
      (attempted g task p memory) := by
  have hbegin : PoolStep g readHandlers plainEnv (fun _ => fsRegistry) (readCheckpoint task) p
      { p with begun := p.begun + 1, attempts := p.attempts ++ [readAttempt task p memory] } :=
    .begin p hrow hload hresume
  rw [hidle] at hbegin
  exact .tail (.single hbegin) (.finish (l := []) _ true rfl hover)

/-- The pool after the first attempt, whose run ends with an error after the call has run. -/
def onceRun : Pool Bool := attempted (readGate none) (readTask 0 neverFires) (Pool.saved false) []

def ranOutcome : Typed := (.str "ran", .string)

theorem onceRun_run : PoolRun (readGate none) readHandlers plainEnv (fun _ => fsRegistry)
    (readCheckpoint (readTask 0 neverFires)) (Pool.saved false) onceRun :=
  attempted_run none rfl rfl rfl rfl (fun _ h => by cases h)

/-- A second attempt, in a world that is `o` by then. -/
def twiceRun (o : Bool) : Pool Bool :=
  attempted (readGate none) (readTask 0 neverFires) { onceRun with outer := o } [("a", ranOutcome)]

theorem twiceRun_run (o : Bool) : PoolRun (readGate none) readHandlers plainEnv (fun _ => fsRegistry)
    (readCheckpoint (readTask 0 neverFires)) onceRun (twiceRun o) := by
  refine .head (.drift onceRun o) (attempted_run (some ⟨.string, "ran"⟩) rfl ?_ ?_ ?_ ?_)
  · rfl
  · rfl
  · rfl
  intro r h
  cases o with
  | true | false => cases h

/-- The second attempt does not run the call. -/
theorem recorded_outcome_replayed_twiceRun :
    onceRun.row = some (some ⟨.string, "ran"⟩) ∧
      ∃ e ∈ (twiceRun false).log, e.attempt = 1 ∧ e.ran = none ∧
        ∃ rec, ReadsBack (readGate none) onceRun ⟨.string, "ran"⟩ (twiceRun false).log rec ∧
          e.result = .done rec := by
  have hrow : onceRun.row = some (some ⟨.string, "ran"⟩) := by rfl
  obtain ⟨hrecorded, -⟩ := recorded_outcome_replayed (readGate none) readHandlers plainEnv
    (fun _ => fsRegistry) (readCheckpoint (readTask 0 neverFires)) rfl onceRun_run
  obtain ⟨-, hlater⟩ := hrecorded _ hrow
  obtain ⟨-, new, hlog, hnew⟩ := hlater _ (twiceRun_run false)
  have heq : [⟨1, "a", .approve, none, false, .done ranOutcome⟩] = new :=
    List.append_cancel_left hlog
  have he : ⟨1, "a", .approve, none, false, .done ranOutcome⟩ ∈ new := by
    rw [← heq]
    exact List.mem_singleton_self _
  obtain ⟨hran, hresult⟩ := hnew _ he (Nat.le_refl _) rfl
  refine ⟨hrow, _, ?_, rfl, hran (by simp), hresult rfl⟩
  rw [hlog]
  exact List.mem_append_right _ he

/-- An attempt whose first step lost the outcome to the row. -/
def lostRun : Pool Bool :=
  let p : Pool Bool := Pool.saved false
  let w := (p.move (readGate (some "disk full")) readHandlers plainEnv
    (readAttempt (readTask 1 []) p [])).world
  ⟨w.1.toShared, 1, [((readAttempt (readTask 1 []) p []).1,
    ⟨w, (readAttempt (readTask 1 []) p []).2.mem,
      .attempting (readTask 1 []) readTranscript 1⟩)]⟩

theorem lostRun_run : PoolRun (readGate (some "disk full")) readHandlers plainEnv
    (fun _ => fsRegistry) (readCheckpoint (readTask 1 [])) (Pool.saved false) lostRun := by
  have hbegin : PoolStep (readGate (some "disk full")) readHandlers plainEnv (fun _ => fsRegistry)
      (readCheckpoint (readTask 1 [])) (Pool.saved false)
      ⟨(Pool.saved false).toShared, 1, [readAttempt (readTask 1 []) (Pool.saved false) []]⟩ :=
    .begin (c := ⟨"chain", [], 0, 4096, 0, .detached, []⟩) _ rfl rfl rfl
  exact .tail (.single hbegin) (.work (l := []) _ rfl rfl)

/-- A call whose outcome is recorded runs again in a later attempt, if the policy allows it by
then; and a run that could not record an outcome goes on to its end, if its task may be tried
again. -/
theorem allowed_call_runs_again :
    (∃ p q : Pool Bool, ∃ raw, PoolRun (readGate none) readHandlers plainEnv (fun _ => fsRegistry)
        (readCheckpoint (readTask 0 neverFires)) (Pool.saved false) p ∧
      PoolRun (readGate none) readHandlers plainEnv (fun _ => fsRegistry)
        (readCheckpoint (readTask 0 neverFires)) p q ∧
      p.attempts = [] ∧ p.row = some (some raw) ∧
      ∃ e ∈ q.log, p.begun ≤ e.attempt ∧ e.callID = (readGate none).approvalID ∧
        e.ran = some (.done ranOutcome)) ∧
    ∃ p : Pool Bool, ∃ a ∈ p.attempts,
      PoolRun (readGate (some "disk full")) readHandlers plainEnv (fun _ => fsRegistry)
        (readCheckpoint (readTask 1 [])) (Pool.saved false) p ∧
      (∃ e ∈ p.log, e.attempt = a.world.attempt ∧ e.unrecorded = true) ∧
      ∃ w v, p.move (readGate (some "disk full")) readHandlers plainEnv a = .finished w (.ok v) := by
  refine ⟨⟨onceRun, twiceRun true, ⟨.string, "ran"⟩, onceRun_run, twiceRun_run true, rfl, rfl,
    ⟨1, "a", .allow, some (.done ranOutcome), false, .done ranOutcome⟩, ?_, ?_, rfl, rfl⟩,
    lostRun, _, List.mem_singleton_self _, lostRun_run, ⟨_, List.mem_singleton_self _, rfl, rfl⟩,
    _, _, rfl⟩
  · exact List.mem_cons_of_mem _ (List.mem_singleton_self _)
  · exact Nat.le_refl 1

end Contenox.Engine
