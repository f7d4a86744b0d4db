/-
# One session at a time

Whoever has the operation lock owns the slot: nobody else enters a section, opens a session or closes
one.  So what a program knows of the slot while it has the lock stays true, whatever the others do, and
each entry point can be followed on its own.  What it knows is one of three things: nothing is
open but what the slot holds (`Calm`), it has one session in its hands and the slot is empty
(`InHand`), or there is no session at all (`Vacant`).

That is enough for all of it (`slot_sessions_exclusive`): at most one session is open, each is closed once,
the generation does not go back, and a call through a handle is served by the session that was put
into the slot under the generation of that handle, while it is open.
-/
import Contenox.ModelSlot.Service
import Mathlib.Data.List.Count
import Mathlib.Order.Nat

namespace Contenox.ModelSlot

open Lib
open Lib.Contract (Outline)

variable {ι α : Type} {waits : Bool} {i : ι} {w w' : World ι} {Q : α → World ι → Prop}

/-! ## 1. What a section does -/

/-- The resident session and its generation. -/
def Slot.resident (s : Slot) : Option (Nat × Nat) := s.active.map fun a => (a.sess, a.generation)

/-- The session a section takes out of the slot, by its answer. -/
def Section.taken : (sec : Section) → sec.Res → Option Nat
  | .loadCheck _ _, .proceed old => old.map ActiveSlot.sess
  | .unloadCheck _, .detached old => some old.sess
  | .embedCheck, .detached old => some old.sess
  | .releaseCheck _, r | .reapCheck, r | .shutdown, r => Option.map ActiveSlot.sess r
  | .markReadyOrError _, r => r
  | _, _ => none

/-- The answers after which the slot is empty although nothing was taken out. -/
def Section.Empties : (sec : Section) → sec.Res → Prop
  | .loadCheck _ _, .proceed none => True
  | .openCheck _, .proceed => True
  | .shutdown, _ => True
  | _, _ => False

/-- A section that puts nothing into the slot. -/
def Section.Checks : Section → Prop
  | .install _ _ _ _ _ => False
  | _ => True

/-- What a section does to the resident session: it takes it out, or leaves it. -/
structure Takes (s s' : Slot) (taken : Option Nat) : Prop where
  generation : s.generation ≤ s'.generation
  out : ∀ sess, taken = some sess → s'.resident = none ∧ ∃ gen, s.resident = some (sess, gen)
  kept : taken = none → s'.resident = s.resident

variable {s s' : Slot}

theorem takes_same (hgen : s'.generation = s.generation) (hres : s'.resident = s.resident) :
    Takes s s' none where
  generation := Nat.le_of_eq hgen.symm
  out _ h := by cases h
  kept _ := hres

/-- The resident session is taken out, under a new generation. -/
theorem takes_out {a : ActiveSlot} (hgen : s'.generation = s.generation + 1)
    (hactive : s.active = some a) (hres : s'.active = none) : Takes s s' (some a.sess) := by
  refine ⟨by omega, fun sess h => ?_, nofun⟩
  cases h
  unfold Slot.resident
  rw [hres, hactive]
  exact ⟨rfl, a.generation, rfl⟩

/-- The same session, whatever else was changed. -/
theorem resident_eq {a a' : ActiveSlot} (hactive : s.active = some a)
    (hactive' : s'.active = some a') (hsess : a'.sess = a.sess)
    (hgen : a'.generation = a.generation) : s'.resident = s.resident := by
  unfold Slot.resident
  rw [hactive, hactive']
  simp [hsess, hgen]

variable {gen : Nat} {op : String}

section Sections

variable (s : Slot) (now : Int)

theorem loadCheck_takes (expected : Nat) (req : OpenSessionRequest) :
    Takes s (s.loadCheck now expected req).2
      ((Section.loadCheck expected req).taken (s.loadCheck now expected req).1) := by
  unfold Slot.loadCheck
  split
  · exact takes_same rfl rfl
  split
  · next a ha =>
    split
    · exact takes_same rfl (resident_eq ha rfl rfl rfl)
    split
    · exact takes_same rfl rfl
    · exact takes_out rfl ha rfl
  · exact takes_same rfl rfl

theorem unloadCheck_takes (expected : Nat) :
    Takes s (s.unloadCheck expected).2
      ((Section.unloadCheck expected).taken (s.unloadCheck expected).1) := by
  unfold Slot.unloadCheck
  split
  · exact takes_same rfl rfl
  split
  · exact takes_same rfl rfl
  next a ha =>
  split
  · exact takes_same rfl rfl
  · exact takes_out rfl ha rfl

theorem openCheck_takes (req : OpenSessionRequest) : Takes s (s.openCheck now req).2 none := by
  unfold Slot.openCheck
  split
  · next a ha =>
    split
    · split
      · exact takes_same rfl rfl
      · exact takes_same rfl (resident_eq ha rfl rfl rfl)
    · split <;> exact takes_same rfl rfl
  · exact takes_same rfl rfl

theorem embedCheck_takes : Takes s s.embedCheck.2 (Section.embedCheck.taken s.embedCheck.1) := by
  unfold Slot.embedCheck
  split
  · next a ha =>
    split
    · exact takes_same rfl rfl
    · exact takes_out rfl ha rfl
  · exact takes_same rfl rfl

theorem releaseCheck_takes (idleTTL : Int) (gen : Nat) :
    Takes s (s.releaseCheck now idleTTL gen).2
      ((Section.releaseCheck gen).taken (s.releaseCheck now idleTTL gen).1) := by
  unfold Slot.releaseCheck
  split
  · exact takes_same rfl rfl
  next a ha =>
  split
  · exact takes_same rfl rfl
  dsimp only
  split
  · exact takes_same rfl (resident_eq ha rfl rfl rfl)
  · exact takes_out (a := a) rfl ha rfl

theorem reapCheck_takes (idleTTL : Int) :
    Takes s (s.reapCheck now idleTTL).2 (Section.reapCheck.taken (s.reapCheck now idleTTL).1) := by
  unfold Slot.reapCheck
  split
  · exact takes_same rfl rfl
  next a ha =>
  split
  · exact takes_same rfl rfl
  · exact takes_out rfl ha rfl

theorem beginOperation_takes (gen : Nat) (op : String) :
    Takes s (s.beginOperation now gen op).2 none := by
  unfold Slot.beginOperation
  split
  · split <;> exact takes_same rfl rfl
  · split <;> exact takes_same rfl rfl

theorem markReadyOrError_takes (err : Option Err) :
    Takes s (s.markReadyOrError now err).2 (s.markReadyOrError now err).1 := by
  unfold Slot.markReadyOrError
  cases err with
  | none => exact takes_same rfl rfl
  | some e =>
    dsimp only
    split
    · exact takes_same rfl rfl
    split
    · split
      · next a ha => exact takes_out rfl ha rfl
      · exact takes_same rfl rfl
    · split <;> exact takes_same rfl rfl

theorem shutdown_takes : Takes s s.shutdown.2 (Section.shutdown.taken s.shutdown.1) := by
  unfold Slot.shutdown
  cases ha : s.active with
  | none =>
    refine ⟨Nat.le_succ _, ?_, fun _ => ?_⟩
    · intro sess h
      cases h
    · unfold Slot.resident
      rw [ha]
  | some a => exact takes_out rfl ha rfl

theorem finish_takes (hactive : s'.active = s.active) (hgen : s'.generation = s.generation) :
    Takes s s' none := by
  refine takes_same hgen ?_
  unfold Slot.resident
  rw [hactive]

/-- A check takes out at most the resident session. -/
theorem run_takes (idleTTL : Int) (sec : Section) (hsec : sec.Checks) :
    Takes s (sec.run now idleTTL s).2 (sec.taken (sec.run now idleTTL s).1) := by
  cases sec with
  | loadCheck expected req => exact loadCheck_takes s now expected req
  | install req sess refs explicit key => exact hsec.elim
  | unloadCheck expected => exact unloadCheck_takes s expected
  | openCheck req => exact openCheck_takes s now req
  | embedCheck => exact embedCheck_takes s
  | releaseCheck gen => exact releaseCheck_takes s now idleTTL gen
  | reapCheck => exact reapCheck_takes s now idleTTL
  | reapDone err | closeDone err =>
    cases err with
    | none | some _ => exact finish_takes s rfl rfl
  | embedBusy | finishLoadError _ => exact finish_takes s rfl rfl
  | beginOperation gen op => exact beginOperation_takes s now gen op
  | markReadyOrError err => exact markReadyOrError_takes s now err
  | shutdown => exact shutdown_takes s

theorem run_empties (idleTTL : Int) (sec : Section)
    (h : sec.Empties (sec.run now idleTTL s).1) : (sec.run now idleTTL s).2.resident = none := by
  cases sec with
  | loadCheck expected req =>
    change (s.loadCheck now expected req).2.resident = none
    change (Section.loadCheck expected req).Empties (s.loadCheck now expected req).1 at h
    unfold Slot.loadCheck at h ⊢
    split at h
    · exact h.elim
    next hgen =>
    rw [if_neg hgen]
    split at h
    · split at h
      · exact h.elim
      split at h
      · exact h.elim
      · exact h.elim
    · next hnone =>
      rw [hnone]
      rfl
  | openCheck req =>
    change (s.openCheck now req).2.resident = none
    change (Section.openCheck req).Empties (s.openCheck now req).1 at h
    unfold Slot.openCheck at h ⊢
    split at h
    · split at h
      · split at h <;> exact h.elim
      · split at h <;> exact h.elim
    · next hnone =>
      rw [hnone]
      rfl
  | shutdown => rfl
  | _ => exact h.elim

/-- Operations begin on the resident session only. -/
theorem begun_resident {sess : Nat} (h : (s.beginOperation now gen op).1 = .begun sess) :
    s.resident = some (sess, gen) := by
  unfold Slot.beginOperation at h
  split at h
  · split at h <;> cases h
  next a ha =>
  split at h
  · cases h
  next hgen =>
  cases h
  unfold Slot.resident
  rw [ha, ← not_not.mp hgen]
  rfl

end Sections

/-! ## 2. What a step does -/

section

variable [DecidableEq ι] {idleTTL : Int} {sec : Section} {r : sec.Res}

/-- The handle is there and has the generation. -/
def Named (handles : List Handle) (h gen : Nat) : Prop :=
  ∃ hd : Handle, handles[h]? = some hd ∧ hd.generation = gen

/-- What a step can do to the world. -/
inductive Effect (waits : Bool) (i : ι) (w : World ι) : (o : Op) → o.Res → World ι → Prop
  | nothing (o : Op) (r : o.Res) : Effect waits i w o r w
  | tick (t : Int) : Effect waits i w .tick t { w with clock := t }
  | acquire (cancellable : Bool) (h : w.lock = none) :
      Effect waits i w (.acquire cancellable) none { w with lock := some i }
  | tryAcquire (h : w.lock = none) : Effect waits i w .tryAcquire true { w with lock := some i }
  | unlock (r : Unit) : Effect waits i w .release r { w with lock := none }
  | stop (r : Unit) : Effect waits i w .stop r { w with stopped := true }
  | check {sec : Section} {r : sec.Res} {slot : Slot} (hsec : sec.Checks)
      (h : Takes w.slot slot (sec.taken r)) : Effect waits i w (.enter sec) r { w with slot := slot }
  | install (req : OpenSessionRequest) (sess refs : Nat) (explicit : Bool) (key : String) {slot : Slot}
      (hgen : slot.generation = w.slot.generation + 1)
      (hres : slot.resident = some (sess, slot.generation)) :
      Effect waits i w (.enter (.install req sess refs explicit key)) slot.generation
        { w with slot := slot, installed := (sess, slot.generation) :: w.installed }
  | opened {req : OpenSessionRequest} {r : Opened}
      (h : r = .opened w.next ∨ ∃ e, r = .failed e (some w.next)) :
      Effect waits i w (.openSession req) r w.opened
  | closed {sess : Nat} (h : waits = true → sess ∉ w.abandoned.map Call.sess) :
      Effect waits i w (.closeSession sess) none (w.closeSession sess)
  | handles (o : Op) (r : o.Res) {handles : List Handle}
      (h : ∀ n gen, Named w.handles n gen → Named handles n gen) :
      Effect waits i w o r { w with handles := handles }
  | call (h sess : Nat) (op : String) (r : Unit) :
      Effect waits i w (.call h sess op) r (w.setRunning i (some ⟨h, sess⟩))
  | finish (r : Option Err) : Effect waits i w .finish r (w.setRunning i none)
  | abandon (r : Unit) : Effect waits i w .abandon r
      { w.setRunning i none with abandoned := (w.running i).toList ++ w.abandoned }
  | streamEnds (h sess : Nat) (r : Unit) : Effect waits i w (.streamEnds h sess) r
      { w with abandoned := w.abandoned.erase ⟨h, sess⟩ }

theorem slot_of_enter (h : sem waits idleTTL i w (.enter sec) r = some w') :
    (sec.run w.clock idleTTL w.slot).1 = r ∧
      w' = w.entered sec (sec.run w.clock idleTTL w.slot).2 := by
  obtain ⟨slot, hstep, rfl⟩ := Option.map_eq_some_iff.mp h
  unfold Section.step at hstep
  rw [Option.ite_none_right_eq_some] at hstep
  obtain ⟨hr, hslot⟩ := hstep
  cases hslot
  exact ⟨hr, rfl⟩

theorem check_of_enter (hsec : sec.Checks) (h : sem waits idleTTL i w (.enter sec) r = some w') :
    ∃ slot, Takes w.slot slot (sec.taken r) ∧ (sec.Empties r → slot.resident = none) ∧
      w' = { w with slot := slot } := by
  obtain ⟨rfl, rfl⟩ := slot_of_enter h
  refine ⟨_, run_takes w.slot w.clock idleTTL sec hsec, run_empties w.slot w.clock idleTTL sec, ?_⟩
  cases sec <;> first | rfl | exact hsec.elim

theorem effect_of_enter (h : sem waits idleTTL i w (.enter sec) r = some w') :
    Effect waits i w (.enter sec) r w' := by
  by_cases hsec : sec.Checks
  · obtain ⟨slot, htakes, -, rfl⟩ := check_of_enter hsec h
    exact .check hsec htakes
  obtain ⟨rfl, rfl⟩ := slot_of_enter h
  cases sec <;> try exact absurd trivial hsec
  next req sess refs explicit key =>
    have hgen : (w.slot.install w.clock req sess refs explicit key).2.generation =
        w.slot.generation + 1 := rfl
    exact .install req sess refs explicit key hgen rfl

theorem effect_of_sem {o : Op} {r : o.Res} (h : sem waits idleTTL i w o r = some w') :
    Effect waits i w o r w' := by
  cases o with
  | tick =>
    obtain ⟨-, rfl⟩ := of_guard h
    exact .tick r
  | ctxErr | resolveModelPath _ | snapshotKey _ | readSnapshot _ | snapshotDir _ | snapshot _
    | restore _ | backendEmbed _ | readBlob | started | receive | forward =>
    cases h
    exact .nothing _ _
  | acquire cancellable =>
    cases r with
    | none =>
      obtain ⟨hfree, rfl⟩ := of_guard h
      exact .acquire cancellable hfree
    | some e =>
      obtain ⟨-, rfl⟩ := of_guard h
      exact .nothing _ _
  | tryAcquire =>
    cases r with
    | true =>
      obtain ⟨hfree, rfl⟩ := of_guard h
      exact .tryAcquire hfree
    | false =>
      obtain ⟨-, rfl⟩ := of_guard_not h
      exact .nothing _ _
  | release =>
    cases h
    exact .unlock _
  | stop =>
    cases h
    exact .stop _
  | enter sec => exact effect_of_enter h
  | openSession req =>
    cases r with
    | opened sess =>
      obtain ⟨rfl, rfl⟩ := of_guard h
      exact .opened (.inl rfl)
    | failed e sess =>
      cases sess with
      | none =>
        cases h
        exact .nothing _ _
      | some sess =>
        obtain ⟨rfl, rfl⟩ := of_guard h
        exact .opened (.inr ⟨e, rfl⟩)
  | closeSession sess =>
    cases r with
    | none =>
      obtain ⟨hwaits, rfl⟩ := of_guard_not h
      exact .closed fun hw hmem => hwaits ⟨hw, hmem⟩
    | some e =>
      cases h
      exact .nothing _ _
  | newHandle gen =>
    obtain ⟨-, rfl⟩ := of_guard h
    refine .handles _ _ fun n gen hn => ?_
    obtain ⟨hd, hn, hgen⟩ := hn
    exact ⟨hd, (List.getElem?_append_left (List.getElem?_eq_some_iff.mp hn).1).trans hn, hgen⟩
  | isStopped | handle _ =>
    obtain ⟨-, rfl⟩ := of_guard h
    exact .nothing _ _
  | closeHandle n =>
    obtain ⟨-, rfl⟩ := of_guard h
    refine .handles _ _ fun m gen hm => ?_
    obtain ⟨hd, hm, hgen⟩ := hm
    unfold Named
    rw [List.getElem?_modify, hm]
    by_cases hn : n = m
    · exact ⟨{ hd with closed := true }, by simp [hn], hgen⟩
    · exact ⟨hd, by simp [hn], hgen⟩
  | call n sess op =>
    cases h
    exact .call n sess op _
  | finish =>
    cases h
    exact .finish _
  | abandon =>
    cases h
    exact .abandon _
  | streamEnds n sess =>
    cases h
    exact .streamEnds n sess _

end

/-! ## 3. The contract -/

/-- What the holder of the lock sees of the slot. -/
structure View where
  resident : Option (Nat × Nat)
  openSessions : List Nat
  stopped : Bool
  running : Option Call

/-- Only what the slot holds is open, and after a shutdown it holds nothing. -/
structure Calm (v : View) : Prop where
  running : v.running = none
  openSessions : v.openSessions = (v.resident.map Prod.fst).toList
  stopped : v.stopped = true → v.resident = none

structure InHand (sess : Nat) (v : View) : Prop where
  running : v.running = none
  resident : v.resident = none
  openSessions : v.openSessions = [sess]

structure Vacant (v : View) : Prop where
  running : v.running = none
  resident : v.resident = none
  openSessions : v.openSessions = []

theorem Vacant.calm {v : View} (h : Vacant v) : Calm v where
  running := h.running
  openSessions := by rw [h.openSessions, h.resident]; rfl
  stopped _ := h.resident

theorem Calm.vacant {v : View} (h : Calm v) (hnone : v.resident = none) : Vacant v where
  running := h.running
  resident := hnone
  openSessions := by rw [h.openSessions, hnone]; rfl

/-- A call through a handle of this generation is being served by the resident session. -/
structure Serving (c : Call) (gen : Nat) (v : View) : Prop where
  running : v.running = some c
  resident : v.resident = some (c.sess, gen)
  openSessions : v.openSessions = [c.sess]

variable {j : ι} {c : Call}

section Contract

variable {slot : Slot} {taken : Option Nat}

def World.view (w : World ι) (i : ι) : View :=
  ⟨w.slot.resident, w.openSessions, w.stopped, w.running i⟩

/-- The assumption on the backend: it closes what it is asked to close. -/
def ClosesSucceed : Lib.StepCond ι (World ι) Op Op.Res
  | _, _, .closeSession _, r => r = none
  | _, _, _, _ => True

structure SlotInv (waits : Bool) (w : World ι) : Prop where
  fresh : ∀ sess ∈ w.openSessions, sess < w.next
  one : w.openSessions.length ≤ 1
  counted : ∀ sess, w.closed.count sess = if sess < w.next ∧ sess ∉ w.openSessions then 1 else 0
  rest : w.lock = none → w.openSessions = (w.slot.resident.map Prod.fst).toList ∧
    (w.stopped = true → w.slot.resident = none)
  resident : ∀ p, w.slot.resident = some p → p ∈ w.installed
  installed : ∀ p ∈ w.installed, p.2 ≤ w.slot.generation
  unique : ∀ p ∈ w.installed, ∀ q ∈ w.installed, p.2 = q.2 → p = q
  running : ∀ i c, w.running i = some c → w.lock = some i ∧
    ∃ gen, Named w.handles c.handle gen ∧ Serving c gen (w.view i)
  abandoned : ∀ c ∈ w.abandoned, (∃ gen, Named w.handles c.handle gen ∧ (c.sess, gen) ∈ w.installed) ∧
    (waits = true → c.sess ∈ w.openSessions)

/-- What a program keeps to: it touches the slot and the sessions only under the lock, and gives it back
when the slot is calm. -/
def Allowed (i : ι) (w : World ι) : Op → Prop
  | .release => w.lock = some i ∧ Calm (w.view i)
  | .stop => w.lock = some i
  | .enter (.install _ sess _ _ _) =>
    w.lock = some i ∧ InHand sess (w.view i) ∧ w.stopped = false
  | .enter _ => w.lock = some i ∧ w.running i = none
  | .openSession _ => w.lock = some i ∧ Vacant (w.view i)
  | .closeSession sess => w.lock = some i ∧ InHand sess (w.view i)
  | .snapshot sess | .restore sess => w.lock = some i ∧ InHand sess (w.view i)
  | .call h sess _ => w.lock = some i ∧ w.running i = none ∧
    ∃ gen, Named w.handles h gen ∧ w.slot.resident = some (sess, gen) ∧ w.openSessions = [sess]
  | .finish | .abandon => w.lock = some i
  | _ => True

theorem SlotInv.calm (h : SlotInv waits w) (hfree : w.lock = none) (i : ι) : Calm (w.view i) := by
  refine ⟨?_, (h.rest hfree).1, (h.rest hfree).2⟩
  cases hrunning : w.running i with
  | none => exact hrunning
  | some c =>
    have hlock := (h.running i c hrunning).1
    rw [hfree] at hlock
    cases hlock

/-- A free lock is taken: nobody has a call running then. -/
theorem SlotInv.acquire (h : SlotInv waits w) (hfree : w.lock = none) (i : ι) :
    SlotInv waits { w with lock := some i } :=
  { h with
    rest hfree' := nomatch hfree'
    running j c hc := nomatch hfree.symm.trans (h.running j c hc).1 }

variable {abandoned : List Call}

/-- The handles may grow, and streams that were left behind may end. -/
theorem SlotInv.aside (h : SlotInv waits w) {handles : List Handle}
    (hhandles : ∀ n gen, Named w.handles n gen → Named handles n gen)
    (habandoned : ∀ c ∈ abandoned, c ∈ w.abandoned) :
    SlotInv waits { w with handles := handles, abandoned := abandoned } :=
  { h with
    running j c hc := by
      obtain ⟨hj, gen, hnamed, hserving⟩ := h.running j c hc
      exact ⟨hj, gen, hhandles _ _ hnamed, hserving⟩
    abandoned c hc := by
      obtain ⟨⟨gen, hnamed, hinst⟩, hopen⟩ := h.abandoned c (habandoned c hc)
      exact ⟨⟨gen, hhandles _ _ hnamed, hinst⟩, hopen⟩ }

/-- What its holder sees of a slot out of which nothing was taken. -/
theorem Takes.view (h : Takes w.slot slot taken) (hnone : taken = none) :
    World.view { w with slot := slot } i = w.view i := by
  unfold World.view
  rw [h.kept hnone]

/-- The session that was taken out of a slot that held all there was. -/
theorem Takes.inHand (h : Takes w.slot slot taken) {sess : Nat} (hsome : taken = some sess)
    (hidle : w.running i = none) (hopen : w.openSessions = (w.slot.resident.map Prod.fst).toList) :
    InHand sess (World.view { w with slot := slot } i) := by
  obtain ⟨hnone, gen, hold⟩ := h.out sess hsome
  refine ⟨hidle, hnone, hopen.trans ?_⟩
  rw [hold]
  rfl

/-! What the holder of the lock does keeps the invariant. -/

variable (h : SlotInv waits w) (hlock : w.lock = some i)

include h hlock

/-- Only the holder of the lock has a call running. -/
theorem SlotInv.holder (hc : w.running j = some c) : j = i :=
  Option.some.inj ((h.running j c hc).1.symm.trans hlock)

/-- While the holder of the lock has no call running, nobody has one. -/
theorem SlotInv.quiet (hidle : w.running i = none) (hc : w.running j = some c) : False := by
  obtain rfl := h.holder hlock hc
  rw [hidle] at hc
  cases hc

theorem SlotInv.check (hidle : w.running i = none)
    (htakes : Takes w.slot slot taken) : SlotInv waits { w with slot := slot } :=
  { h with
    rest hfree := nomatch hlock.symm.trans hfree
    resident p hp := by
      cases taken with
      | none =>
        rw [htakes.kept rfl] at hp
        exact h.resident p hp
      | some sess =>
        rw [(htakes.out sess rfl).1] at hp
        cases hp
    installed p hp := (h.installed p hp).trans htakes.generation
    running _ _ hc := (h.quiet hlock hidle hc).elim }

/-- A session is installed under a generation of its own. -/
theorem SlotInv.install (hidle : w.running i = none)
    (sess : Nat) (hgen : slot.generation = w.slot.generation + 1)
    (hres : slot.resident = some (sess, slot.generation)) :
    SlotInv waits { w with slot := slot, installed := (sess, slot.generation) :: w.installed } :=
  { h with
    rest hfree := nomatch hlock.symm.trans hfree
    resident p hp := by
      rw [hres] at hp
      cases hp
      exact List.mem_cons_self
    installed p hp := by
      rcases List.mem_cons.mp hp with rfl | hp
      · exact le_refl _
      have := h.installed p hp
      change p.2 ≤ slot.generation
      omega
    unique p hp q hq hpq := by
      -- the new generation is past all the others
      rcases List.mem_cons.mp hp with rfl | hp
      · rcases List.mem_cons.mp hq with rfl | hq
        · rfl
        have := h.installed q hq
        omega
      · rcases List.mem_cons.mp hq with rfl | hq
        · have := h.installed p hp
          omega
        · exact h.unique p hp q hq hpq
    running _ _ hc := (h.quiet hlock hidle hc).elim
    abandoned c hc := by
      obtain ⟨⟨gen, hnamed, hinst⟩, hopen⟩ := h.abandoned c hc
      exact ⟨⟨gen, hnamed, List.mem_cons_of_mem _ hinst⟩, hopen⟩ }

/-- A session is opened where none is open. -/
theorem SlotInv.opened (hvacant : Vacant (w.view i)) : SlotInv waits w.opened := by
  have hnone : w.openSessions = [] := hvacant.openSessions
  have hopen : w.opened.openSessions = [w.next] := by
    unfold World.opened
    rw [hnone]
  refine ⟨?_, ?_, ?_, ?_, h.resident, h.installed, h.unique, ?_, ?_⟩
  · intro sess hsess
    rw [hopen, List.mem_singleton] at hsess
    rw [hsess]
    exact Nat.lt_succ_self _
  · rw [hopen]
    exact le_refl _
  · intro sess
    have hcount := h.counted sess
    rw [hnone] at hcount
    rw [hopen]
    change w.closed.count sess = if sess < w.next + 1 ∧ sess ∉ [w.next] then 1 else 0
    rw [hcount]
    simp only [List.not_mem_nil, not_false_eq_true, and_true, List.mem_singleton]
    by_cases hlt : sess < w.next
    · rw [if_pos hlt, if_pos ⟨by omega, by omega⟩]
    · rw [if_neg hlt, if_neg (by omega)]
  · exact fun hfree => nomatch hlock.symm.trans hfree
  · exact fun _ _ hc => (h.quiet hlock hvacant.running hc).elim
  · intro c hc
    refine ⟨(h.abandoned c hc).1, fun hw => ?_⟩
    have hmem := (h.abandoned c hc).2 hw
    rw [hnone] at hmem
    cases hmem

/-- The session in hand is closed. -/
theorem SlotInv.closed {sess : Nat}
    (hhand : InHand sess (w.view i)) (hstreams : waits = true → sess ∉ w.abandoned.map Call.sess) :
    SlotInv waits (w.closeSession sess) := by
  have hone : w.openSessions = [sess] := hhand.openSessions
  have hnone : (w.closeSession sess).openSessions = [] := by
    unfold World.closeSession
    simp [hone]
  refine ⟨?_, ?_, ?_, ?_, h.resident, h.installed, h.unique, ?_, ?_⟩
  · rw [hnone]
    exact nofun
  · rw [hnone]
    exact Nat.zero_le _
  · intro s
    have hcount := h.counted s
    have hfresh : sess < w.next := h.fresh sess (hone ▸ List.mem_singleton_self sess)
    rw [hone] at hcount
    rw [hnone]
    change (sess :: w.closed).count s = if s < w.next ∧ s ∉ [] then 1 else 0
    by_cases hs : s = sess
    · subst hs
      rw [List.count_cons_self, hcount, if_neg (by simp), if_pos ⟨hfresh, List.not_mem_nil⟩]
    · rw [List.count_cons_of_ne (Ne.symm hs), hcount]
      simp [hs]
  · exact fun hfree => nomatch hlock.symm.trans hfree
  · exact fun _ _ hc => (h.quiet hlock hhand.running hc).elim
  · intro c hc
    refine ⟨(h.abandoned c hc).1, fun hw => ?_⟩
    have hmem := (h.abandoned c hc).2 hw
    rw [hone, List.mem_singleton] at hmem
    exact absurd (List.mem_map.mpr ⟨c, hc, hmem⟩) (hstreams hw)

theorem SlotInv.unlock (hcalm : Calm (w.view i)) : SlotInv waits { w with lock := none } :=
  { h with
    rest _ := ⟨hcalm.openSessions, hcalm.stopped⟩
    running _ _ hc := (h.quiet hlock hcalm.running hc).elim }

theorem SlotInv.stop :
    SlotInv waits { w with stopped := true } :=
  { h with
    rest hfree := nomatch hlock.symm.trans hfree
    running j c hc := by
      obtain ⟨hj, gen, hnamed, hserving⟩ := h.running j c hc
      exact ⟨hj, gen, hnamed, hserving.running, hserving.resident, hserving.openSessions⟩ }

variable [DecidableEq ι]

theorem SlotInv.call {n sess : Nat} (hnamed : Named w.handles n gen)
    (hres : w.slot.resident = some (sess, gen)) (hopen : w.openSessions = [sess]) :
    SlotInv waits (w.setRunning i (some ⟨n, sess⟩)) :=
  { h with
    rest hfree := nomatch hlock.symm.trans hfree
    running j c hc := by
      by_cases hj : j = i
      · subst hj
        have hself : (w.setRunning j (some ⟨n, sess⟩)).running j = some ⟨n, sess⟩ :=
          Function.update_self _ _ _
        rw [hself] at hc
        cases hc
        exact ⟨hlock, gen, hnamed, hself, hres, hopen⟩
      · exact absurd (h.holder hlock ((Function.update_of_ne hj _ _).symm.trans hc)) hj }

/-- A call is over; what it leaves behind is the backend's. -/
theorem SlotInv.finish (hleft : ∀ c ∈ abandoned, c ∈ w.abandoned ∨ w.running i = some c) :
    SlotInv waits { w.setRunning i none with abandoned := abandoned } :=
  { h with
    rest hfree := nomatch hlock.symm.trans hfree
    running j c hc := by
      by_cases hj : j = i
      · subst hj
        have hself : Function.update w.running j none j = none := Function.update_self _ _ _
        rw [show Function.update w.running j none j = some c from hc] at hself
        cases hself
      · exact absurd (h.holder hlock ((Function.update_of_ne hj _ _).symm.trans hc)) hj
    abandoned c hc := by
      rcases hleft c hc with hold | hrun
      · exact h.abandoned c hold
      obtain ⟨-, gen, hnamed, hserving⟩ := h.running i c hrun
      refine ⟨⟨gen, hnamed, h.resident _ hserving.resident⟩, fun _ => ?_⟩
      have hopen : w.openSessions = [c.sess] := hserving.openSessions
      change c.sess ∈ w.openSessions
      rw [hopen]
      exact List.mem_singleton_self _ }

omit h hlock

variable (ι) in
def slotContract (waits : Bool) (idleTTL : Int) : Contract ι (World ι) Op Op.Res where
  sem := sem waits idleTTL
  ok := ClosesSucceed
  inv := SlotInv waits
  guar := Allowed

/-- **Every step keeps the invariant.** -/
theorem slotContract_preserved (waits : Bool) (idleTTL : Int) :
    (slotContract ι waits idleTTL).Preserved := by
  intro i w o r w' hm
  obtain ⟨hinv, hguar, -, hsem⟩ := hm
  cases effect_of_sem hsem with
  | nothing => exact hinv
  | tick t => exact { hinv with }
  | acquire cancellable hfree | tryAcquire hfree => exact hinv.acquire hfree i
  | unlock r => exact hinv.unlock hguar.1 hguar.2
  | stop r => exact hinv.stop hguar
  | @check sec r slot hsec htakes =>
    have hmine : w.lock = some i ∧ w.running i = none := by
      cases sec <;> first | exact hguar | exact hsec.elim
    exact hinv.check hmine.1 hmine.2 htakes
  | install req sess refs explicit key hgen hres =>
    exact hinv.install hguar.1 hguar.2.1.running sess hgen hres
  | opened h => exact hinv.opened hguar.1 hguar.2
  | closed hstreams => exact hinv.closed hguar.1 hguar.2 hstreams
  | handles o r h => exact hinv.aside h fun _ h => h
  | call n sess op r =>
    obtain ⟨hlock, -, gen, hnamed, hres, hopen⟩ := hguar
    exact hinv.call hlock hnamed hres hopen
  | finish r => exact hinv.finish hguar fun c hc => .inl hc
  | abandon r =>
    refine hinv.finish hguar fun c hc => ?_
    rcases List.mem_append.mp hc with hc | hc
    · exact .inr (Option.mem_toList.mp hc)
    · exact .inl hc
  | streamEnds n sess r => exact hinv.aside (fun _ _ h => h) fun _ => List.mem_of_mem_erase

end Contract

/-! ## 4. The programs keep to it -/

section

/-- Whether closing a session waits for its streams, and how long a session may be idle. -/
structure Setting where
  waits : Bool
  idleTTL : Int

variable [DecidableEq ι] {b : Setting} {o : Op} {r : o.Res} {work : SlotProg (Except Err α)}

/-- What the holder of the lock knows. -/
def Mine (i : ι) (P : View → Prop) (w : World ι) : Prop := w.lock = some i ∧ P (w.view i)

def Outside (i : ι) (w : World ι) : Prop := w.lock ≠ some i

/-- From `P` the program of thread `i` ends in `Q`, whatever the other threads do. -/
abbrev Proves (b : Setting) (i : ι) {α : Type} (P : World ι → Prop)
    (p : SlotProg α) (Q : α → World ι → Prop) : Prop :=
  (slotContract ι b.waits b.idleTTL).Outline i P p Q

/-- A program that begins and ends without the lock. -/
abbrev Respects (b : Setting) (i : ι) {α : Type} (p : SlotProg α) : Prop :=
  Proves b i (Outside i) p fun _ => Outside i

theorem sem_of_move (hm : (slotContract ι b.waits b.idleTTL).Move i w o r w') :
    sem b.waits b.idleTTL i w o r = some w' :=
  hm.2.2.2

/-- Nobody else touches what the holder of the lock sees. -/
theorem view_of_other (hj : j ≠ i) (hguar : Allowed j w o)
    (hsem : sem b.waits b.idleTTL j w o r = some w') (hlock : w.lock = some i) :
    w'.lock = some i ∧ w'.view i = w.view i := by
  have hnot : w.lock ≠ some j := by
    rw [hlock]
    exact fun h => hj (Option.some.inj h).symm
  cases effect_of_sem hsem with
  | nothing | tick _ | handles _ _ _ | streamEnds _ _ _ => exact ⟨hlock, rfl⟩
  | acquire cancellable hfree | tryAcquire hfree =>
    cases hlock.symm.trans hfree
  | @check sec r slot hsec htakes =>
    have hmine : w.lock = some j := by
      cases sec <;> exact hguar.1
    exact absurd hmine hnot
  | unlock _ | install _ _ _ _ _ _ _ | opened _ | closed _ | call _ _ _ _ =>
    exact absurd hguar.1 hnot
  | stop _ | finish _ | abandon _ => exact absurd hguar hnot

/-- Under the lock, nobody else changes what its holder sees. -/
theorem stable_mine (P : View → Prop) : (slotContract ι b.waits b.idleTTL).Stable i (Mine i P) := by
  intro j w o r w' hj hm h
  obtain ⟨hlock, hview⟩ := view_of_other hj hm.2.1 hm.2.2.2 h.1
  exact ⟨hlock, hview ▸ h.2⟩

theorem stable_outside : (slotContract ι b.waits b.idleTTL).Stable i (Outside i) := by
  intro j w o r w' hj hm h
  cases effect_of_sem hm.2.2.2 with
  | acquire _ _ | tryAcquire _ => exact fun hlock => hj (Option.some.inj hlock)
  | unlock r => exact nofun
  | _ => exact h

/-- A handle keeps its generation. -/
theorem persistent_named (n gen : Nat) :
    (slotContract ι b.waits b.idleTTL).Persistent fun w => Named w.handles n gen := by
  intro j w o r w' hm h
  cases effect_of_sem hm.2.2.2 with
  | handles o r hkeep => exact hkeep n gen h
  | _ => exact h

/-- Steps that touch neither the lock nor what its holder sees. -/
def Aside : Op → Prop
  | .tick | .ctxErr | .resolveModelPath _ | .isStopped | .snapshotKey _ | .readSnapshot _
  | .snapshotDir _ | .backendEmbed _ | .newHandle _ | .handle _ | .closeHandle _ | .readBlob | .started
  | .receive | .forward | .streamEnds _ _ => True
  | _ => False

theorem Aside.allowed {κ : Type} (ho : Aside o) (i : κ) (w : World κ) : Allowed i w o := by
  cases o <;> trivial

theorem view_of_aside (ho : Aside o) (hsem : sem b.waits b.idleTTL i w o r = some w') :
    w'.lock = w.lock ∧ ∀ j, w'.view j = w.view j := by
  cases effect_of_sem hsem with
  | nothing | tick _ | handles _ _ _ | streamEnds _ _ _ => exact ⟨rfl, fun _ => rfl⟩
  | _ => exact ho.elim

variable {k : o.Res → SlotProg α}

section Rules

variable {P : View → Prop} {req : OpenSessionRequest}

theorem aside_mine (ho : Aside o) (hk : ∀ r, Proves b i (Mine i P) (k r) Q) :
    Proves b i (Mine i P) (issue o >>= k) Q := by
  refine .keep (fun w _ _ => ho.allowed i w) (stable_mine P) ?_ hk
  intro w r w' hm h
  obtain ⟨hlock, hview⟩ := view_of_aside ho hm.2.2.2
  exact ⟨hlock.trans h.1, (hview i).symm ▸ h.2⟩

theorem aside_outside (ho : Aside o) (hk : ∀ r, Proves b i (Outside i) (k r) Q) :
    Proves b i (Outside i) (issue o >>= k) Q := by
  refine .keep (fun w _ _ => ho.allowed i w) stable_outside ?_ hk
  intro w r w' hm h hlock
  exact h ((view_of_aside ho hm.2.2.2).1.symm.trans hlock)

/-- A return while the slot is calm. -/
theorem quit_mine {R : View → Prop} {a : α} :
    Proves b i (Mine i fun v => Calm v ∧ R v) (pure a) fun _ => Mine i Calm :=
  .ret fun _ _ h => ⟨h.1, h.2.1⟩

/-- The lock is given back. -/
theorem release_mine {k : Unit → SlotProg α} (hk : Proves b i (Outside i) (k ()) Q) :
    Proves b i (Mine i Calm) (issue .release >>= k) Q := by
  refine .learn _ (fun w _ h => h) (fun _ => stable_outside) ?_ fun _ => hk
  intro w r w' _ hm hlock
  cases hm.2.2.2
  cases hlock

/-- What a section that only takes out leaves: `Calm`, or the session it took. -/
def Left : Option Nat → View → Prop
  | none => Calm
  | some sess => InHand sess

theorem check_mine (sec : Section) (hsec : sec.Checks) (S : Bool → Prop) {k : sec.Res → SlotProg α}
    (hk : ∀ r, Proves b i
      (Mine i fun v => Left (sec.taken r) v ∧ S v.stopped ∧ (sec.Empties r → v.resident = none))
      (k r) Q) :
    Proves b i (Mine i fun v => Calm v ∧ S v.stopped) (issue (.enter sec) >>= k) Q := by
  refine .learn _ ?_ (fun r => stable_mine _) ?_ hk
  · intro w _ h
    have hmine : w.lock = some i ∧ w.running i = none := ⟨h.1, h.2.1.running⟩
    cases sec <;> first | exact hmine | exact hsec.elim
  · intro w r w' h hm
    obtain ⟨hlock, hcalm, hstopped⟩ := h
    obtain ⟨slot, htakes, hempties, rfl⟩ := check_of_enter hsec (sem_of_move hm)
    refine ⟨hlock, ?_, hstopped, hempties⟩
    cases htaken : sec.taken r with
    | none => exact htakes.view htaken ▸ hcalm
    | some sess => exact htakes.inHand htaken hcalm.running hcalm.openSessions

variable (S : Bool → Prop)

/-- The session in hand is closed. -/
theorem close_mine {sess : Nat} {k : Option Err → SlotProg α}
    (hk : Proves b i (Mine i fun v => Vacant v ∧ S v.stopped) (k none) Q) :
    Proves b i (Mine i fun v => InHand sess v ∧ S v.stopped)
      (issue (.closeSession sess) >>= k) Q := by
  refine .op (fun w _ h => ⟨h.1, h.2.1⟩) fun r => ?_
  cases r with
  | some e =>
    exact ⟨_, (Contract.persistent_const False).stable i, fun _ _ _ hm => (by cases hm.2.2.1),
      Outline.absurd _⟩
  | none =>
    refine ⟨_, stable_mine _, fun w w' h hm => ?_, hk⟩
    obtain ⟨hlock, hhand, hstopped⟩ := h
    obtain ⟨-, rfl⟩ := of_guard_not hm.2.2.2
    refine ⟨hlock, ⟨hhand.running, hhand.resident, ?_⟩, hstopped⟩
    have hopen : w.openSessions = [sess] := hhand.openSessions
    change w.openSessions.erase sess = []
    simp [hopen]

/-- A call of the service itself on the session it has in hand. -/
theorem inHand_mine {sess : Nat} (ho : o = .snapshot sess ∨ o = .restore sess)
    (hk : ∀ r, Proves b i (Mine i fun v => InHand sess v ∧ S v.stopped) (k r) Q) :
    Proves b i (Mine i fun v => InHand sess v ∧ S v.stopped) (issue o >>= k) Q := by
  refine .keep ?_ (stable_mine _) ?_ hk
  · intro w _ h
    rcases ho with rfl | rfl <;> exact ⟨h.1, h.2.1⟩
  intro w r w' hm h
  rcases ho with rfl | rfl <;> cases hm.2.2.2 <;> exact h

/-- The session an answer of the backend comes with. -/
def Opened.sess : Opened → Option Nat
  | .opened sess => some sess
  | .failed _ sess => sess

def Held : Option Nat → View → Prop
  | none => Vacant
  | some sess => InHand sess

theorem open_mine {k : Opened → SlotProg α}
    (hk : ∀ r : Opened, Proves b i (Mine i fun v => Held r.sess v ∧ S v.stopped) (k r) Q) :
    Proves b i (Mine i fun v => Vacant v ∧ S v.stopped) (issue (.openSession req) >>= k) Q := by
  refine .learn _ (fun w _ h => ⟨h.1, h.2.1⟩) (fun r => stable_mine _) ?_ hk
  intro w r w' h hm
  obtain ⟨hlock, hvacant, hstopped⟩ := h
  have hheld : w.openSessions = [] := hvacant.openSessions
  have hnew : InHand w.next (w.opened.view i) := by
    refine ⟨hvacant.running, hvacant.resident, ?_⟩
    change w.next :: w.openSessions = [w.next]
    rw [hheld]
  cases r with
  | opened sess =>
    obtain ⟨rfl, rfl⟩ := of_guard hm.2.2.2
    exact ⟨hlock, hnew, hstopped⟩
  | failed e sess =>
    cases sess with
    | none =>
      cases hm.2.2.2
      exact ⟨hlock, hvacant, hstopped⟩
    | some sess =>
      obtain ⟨rfl, rfl⟩ := of_guard hm.2.2.2
      exact ⟨hlock, hnew, hstopped⟩

/-- The session in hand becomes the resident one. -/
theorem install_mine {sess refs : Nat} {explicit : Bool} {key : String} {k : Nat → SlotProg α}
    (hk : ∀ r, Proves b i (Mine i fun v => Calm v ∧ v.stopped = false) (k r) Q) :
    Proves b i (Mine i fun v => InHand sess v ∧ v.stopped = false)
      (issue (.enter (.install req sess refs explicit key)) >>= k) Q := by
  refine .learn _ (fun w _ h => ⟨h.1, h.2.1, h.2.2⟩) (fun r => stable_mine _) ?_ hk
  intro w r w' h hm
  obtain ⟨hlock, hhand, hstopped⟩ := h
  obtain ⟨-, rfl⟩ := slot_of_enter (sem_of_move hm)
  refine ⟨hlock, ⟨hhand.running, hhand.openSessions, fun h => ?_⟩, hstopped⟩
  have hstopped : w.stopped = false := hstopped
  have h : w.stopped = true := h
  rw [hstopped] at h
  cases h

end Rules

/-! ### Locking -/

/-- What an entry point works with. -/
def Working (v : View) : Prop := Calm v ∧ v.stopped = false

/-- The lock is held unless there is an error. -/
theorem lockOperation_outline (cancellable : Bool) :
    Proves b i (Outside i) (lockOperation cancellable)
      fun r w => (r = none → Mine i Working w) ∧ (r ≠ none → Outside i w) := by
  refine .op (fun _ _ _ => trivial) fun r => ?_
  cases r with
  | some e =>
    refine ⟨_, stable_outside, fun w w' hout hm => ?_, .ret fun w _ h => ⟨nofun, fun _ => h⟩⟩
    obtain ⟨-, rfl⟩ := of_guard hm.2.2.2
    exact hout
  | none =>
    refine ⟨_, stable_mine Calm, fun w w' _ hm => ?_, ?_⟩
    · obtain ⟨hfree, rfl⟩ := of_guard hm.2.2.2
      exact ⟨rfl, SlotInv.calm hm.1 hfree i⟩
    refine .learn (fun stopped => Mine i fun v => Calm v ∧ v.stopped = stopped)
      (fun _ _ _ => trivial) (fun _ => stable_mine _) ?_ fun stopped => ?_
    · intro w stopped w' h hm
      obtain ⟨hstopped, rfl⟩ := of_guard hm.2.2.2
      exact ⟨h.1, h.2, hstopped.symm⟩
    cases stopped with
    | true =>
      refine .pre (fun w _ h => ⟨h.1, h.2.1⟩) (release_mine ?_)
      exact .ret fun w _ h => ⟨nofun, fun _ => h⟩
    | false => exact .ret fun w _ h => ⟨fun _ => h, fun h => absurd rfl h⟩

/-- The work may use what nobody destroys. -/
theorem underLock_frame {F : World ι → Prop} (hF : (slotContract ι b.waits b.idleTTL).Persistent F)
    (hwork : Proves b i (fun w => Mine i Working w ∧ F w) work fun _ => Mine i Calm) :
    Proves b i (fun w => Outside i w ∧ F w) (underLock work) fun _ => Outside i := by
  have hctx : Proves b i (Mine i Working) (issue .ctxErr)
      fun _ => Mine i Working :=
    aside_mine (o := .ctxErr) trivial fun _ => .done
  refine .bind (fun r => ?_) ((lockOperation_outline true).frame hF)
  cases r with
  | some e => exact .ret fun w _ h => h.1.2 (Option.some_ne_none e)
  | none =>
    refine .pre (fun w _ h => ⟨h.1.1 rfl, h.2⟩) (Outline.bind (fun r => ?_) (hctx.frame hF))
    cases r with
    | some e =>
      refine .pre (fun w _ h => ⟨h.1.1, h.1.2.1⟩) (release_mine ?_)
      exact .done
    | none =>
      refine .bind (fun r => ?_) hwork
      exact release_mine .done

theorem underLock_outline (hwork : Proves b i (Mine i Working) work fun _ => Mine i Calm) :
    Respects b i (underLock work) :=
  Outline.pre (fun _ _ h => ⟨h, trivial⟩) (underLock_frame
    (Contract.persistent_const True) (Outline.pre (fun _ _ h => h.1) hwork))

theorem admitted_outline (cfg : Config) (owner : String) {go : SlotProg (Except Err α)}
    (hgo : Respects b i go) : Respects b i (admitted cfg owner go) := by
  refine aside_outside (o := .ctxErr) trivial fun r => ?_
  cases r with
  | some e => exact .done
  | none =>
    dsimp only
    split
    · exact .done
    · exact hgo

theorem resolved_outline (cfg : Config) (req : OpenSessionRequest)
    {go : OpenSessionRequest → SlotProg (Except Err α)} (hgo : ∀ req, Respects b i (go req)) :
    Respects b i (resolved cfg req go) := by
  refine admitted_outline cfg req.ownerInstanceID ?_
  refine aside_outside (o := .resolveModelPath req) trivial fun r => ?_
  cases r with
  | error e => exact .done
  | ok req => exact hgo req

/-! ### Sessions -/

theorem closeOld_mine (old : ActiveSlot) (S : Bool → Prop) {k : Option Err → SlotProg α}
    (hk : Proves b i (Mine i fun v => Vacant v ∧ S v.stopped) (k none) Q) :
    Proves b i (Mine i fun v => InHand old.sess v ∧ S v.stopped) (closeOld old >>= k) Q := by
  have hcapture : Proves b i (Mine i fun v => InHand old.sess v ∧ S v.stopped) (captureSnapshot old)
      fun _ => Mine i fun v => InHand old.sess v ∧ S v.stopped := by
    refine aside_mine (o := .snapshotDir old.snapshotKey) trivial fun wanted => ?_
    split
    · exact inHand_mine S (.inl rfl) fun _ => .done
    · exact .done
  refine .bind (R := fun r w => r = none ∧ Mine i (fun v => Vacant v ∧ S v.stopped) w)
    (fun r => ?_) (.bind (fun _ => close_mine S (.ret fun w _ h => ⟨rfl, h⟩)) hcapture)
  cases r with
  | some e => exact (Outline.absurd _).pre fun _ _ h => by cases h.1
  | none => exact hk.pre fun _ _ h => h.2

theorem openWithSnapshot_outline (req : OpenSessionRequest) (S : Bool → Prop) :
    Proves b i (Mine i fun v => Vacant v ∧ S v.stopped)
      (openWithSnapshot req) fun r => Mine i fun v => Held r.1.sess v ∧ S v.stopped := by
  refine aside_mine (o := .snapshotKey req) trivial fun key => ?_
  refine open_mine S fun r => ?_
  cases r with
  | failed e sess => exact .ret fun _ _ h => h
  | opened sess =>
    refine aside_mine (o := .readSnapshot key) trivial fun found => ?_
    split
    · refine inHand_mine S (.inr rfl) fun r => ?_
      cases r with
      | none => exact .ret fun _ _ h => h
      | some e =>
        refine close_mine S ?_
        exact open_mine S fun r => .ret fun _ _ h => h
    · exact .ret fun _ _ h => h

/-- A session is opened and put into the empty slot, or nothing is left. -/
theorem openModel_outline (req : OpenSessionRequest) (refs : Nat) (explicit : Bool) :
    Proves b i (Mine i fun v => Vacant v ∧ v.stopped = false)
      (openModel req refs explicit) fun _ => Mine i Calm := by
  have hfail : ∀ e, Proves b i (Mine i fun v => Vacant v ∧ v.stopped = false)
      (issue (.enter (.finishLoadError e)) >>= fun _ => (pure (.error e) : SlotProg (Except Err Nat)))
      fun _ => Mine i Calm := by
    intro e
    refine .pre (fun w _ h => ⟨h.1, h.2.1.calm, h.2.2⟩)
      (check_mine (.finishLoadError e) trivial (· = false) fun _ => ?_)
    exact quit_mine
  refine .bind (fun r => ?_) (openWithSnapshot_outline req (· = false))
  obtain ⟨opened, key⟩ := r
  cases opened with
  | opened sess => exact install_mine fun gen => quit_mine
  | failed e sess =>
    cases sess with
    | none => exact hfail (loadError e)
    | some sess => exact close_mine (· = false) (hfail (loadError e))

/-- A session that its backend gave up on is taken out and closed. -/
theorem markReadyOrError_outline (err : Option Err) :
    Proves b i (Mine i Calm) (markReadyOrError err) fun _ => Mine i Calm := by
  refine .pre (fun w _ h => ⟨h.1, h.2, trivial⟩)
    (check_mine (.markReadyOrError err) trivial (fun _ => True) fun r => ?_)
  cases r with
  | none => exact quit_mine
  | some sess =>
    refine .pre (fun w _ h => ⟨h.1, h.2.1, trivial⟩) (close_mine (fun _ => True) ?_)
    exact .ret fun w _ h => ⟨h.1, h.2.1.calm⟩

/-- After a session was closed, the slot is brought into a state that says so. -/
theorem closeDone_outline {sec : Section} (hsec : sec.Checks) (S : Bool → Prop)
    {k : sec.Res → SlotProg α} (hk : ∀ r, sec.taken r = none ∧ Proves b i (Mine i Calm) (k r) Q) :
    Proves b i (Mine i fun v => Vacant v ∧ S v.stopped) (issue (.enter sec) >>= k) Q := by
  refine .pre (fun w _ h => ⟨h.1, h.2.1.calm, trivial⟩)
    (check_mine sec hsec (fun _ => True) fun r => ?_)
  obtain ⟨htaken, hk⟩ := hk r
  rw [htaken]
  exact hk.pre fun w _ h => ⟨h.1, h.2.1⟩

theorem closeAndSettle_outline (old : ActiveSlot) (S : Bool → Prop) :
    Proves b i (Mine i fun v => InHand old.sess v ∧ S v.stopped)
      (closeAndSettle old) fun _ => Mine i Calm := by
  have hdone : (Section.closeDone none).Checks := trivial
  exact closeOld_mine old S (closeDone_outline hdone S fun _ => ⟨rfl, .done⟩)

/-! ### Entry points -/

variable (cfg : Config)

/-- The old session is closed before the new one is opened. -/
theorem loadModel_outline (expected : Nat) (req : OpenSessionRequest) :
    Respects b i (loadModel cfg expected req) := by
  have hopen : ∀ req : OpenSessionRequest, Proves b i (Mine i fun v => Vacant v ∧ v.stopped = false)
      (openModel req 0 true >>= fun r => pure (r.map (req, ·))) fun _ => Mine i Calm := by
    intro req
    refine .bind (fun r => ?_) (openModel_outline req 0 true)
    exact .done
  refine resolved_outline cfg req fun req => underLock_outline ?_
  refine check_mine (.loadCheck expected req) trivial (· = false) fun r => ?_
  cases r with
  | refused _ | resident _ _ => exact quit_mine
  | proceed old =>
    cases old with
    | none =>
      refine (hopen req).pre fun w _ h => ?_
      have hcalm : Calm (w.view i) := h.2.1
      exact ⟨h.1, hcalm.vacant (h.2.2.2 trivial), h.2.2.1⟩
    | some old =>
      exact (closeOld_mine old (· = false) (hopen req)).pre fun w _ h => ⟨h.1, h.2.1, h.2.2.1⟩

theorem unloadModel_outline (owner : String) (expected : Nat) :
    Respects b i (unloadModel cfg owner expected) := by
  refine admitted_outline cfg owner (underLock_outline ?_)
  refine check_mine (.unloadCheck expected) trivial (· = false) fun r => ?_
  cases r with
  | refused _ | unloaded => exact quit_mine
  | detached old =>
    exact (closeAndSettle_outline old (· = false)).pre fun w _ h => ⟨h.1, h.2.1, h.2.2.1⟩

theorem openSession_outline (req : OpenSessionRequest) : Respects b i (openSession cfg req) := by
  refine .bind (fun r => ?_) (resolved_outline cfg req fun req => underLock_outline ?_)
  · cases r with
    | error e => exact .done
    | ok gen => exact aside_outside (o := .newHandle gen) trivial fun h => .done
  · refine check_mine (.openCheck req) trivial (· = false) fun r => ?_
    cases r with
    | refused _ | shared _ => exact quit_mine
    | proceed =>
      refine (openModel_outline req 1 false).pre fun w _ h => ?_
      have hcalm : Calm (w.view i) := h.2.1
      exact ⟨h.1, hcalm.vacant (h.2.2.2 trivial), h.2.2.1⟩

theorem embed_outline (req : OpenSessionRequest) : Respects b i (embed cfg req) := by
  have hnow : ∀ req : OpenSessionRequest, Proves b i (Mine i Calm)
      (embedNow req) fun _ => Mine i Calm := by
    intro req
    refine aside_mine (o := .backendEmbed req) trivial fun err => ?_
    refine .bind (fun _ => ?_) (markReadyOrError_outline err)
    cases err with
    | none | some _ => exact .done
  refine resolved_outline cfg req fun req => underLock_outline ?_
  refine check_mine (.embedCheck) trivial (· = false) fun r => ?_
  cases r with
  | refused e => exact quit_mine
  | proceed => exact (hnow req).pre fun w _ h => ⟨h.1, h.2.1⟩
  | detached old =>
    have hbusy : Section.embedBusy.Checks := trivial
    refine .pre (fun w _ h => ⟨h.1, h.2.1, h.2.2.1⟩) (closeOld_mine old (· = false) ?_)
    exact closeDone_outline hbusy (· = false) fun _ => ⟨rfl, hnow req⟩

theorem release_outline (gen : Nat) : Respects b i (release gen) := by
  refine .bind (fun r => ?_) (lockOperation_outline false)
  cases r with
  | some e => exact .ret fun w _ h => h.2 (Option.some_ne_none e)
  | none =>
    refine .pre (fun w _ h => h.1 rfl) (Outline.bind (R := fun _ => Mine i Calm) (fun r => ?_) ?_)
    · exact release_mine .done
    refine check_mine (.releaseCheck gen) trivial (· = false) fun r => ?_
    cases r with
    | none => exact quit_mine
    | some old =>
      exact (closeAndSettle_outline old (· = false)).pre fun w _ h => ⟨h.1, h.2.1, h.2.2.1⟩

theorem closeHandle_outline (h : Nat) : Respects b i (closeHandle h) := by
  refine aside_outside (o := .closeHandle h) trivial fun r => ?_
  cases r with
  | none => exact .done
  | some gen => exact release_outline gen

/-- The reaper does not ask whether the service was shut down; after a shutdown there is nothing to
reap. -/
theorem reapIdle_outline :
    Respects b i (reapIdle cfg) := by
  have hrelease : Proves b i (Mine i Calm) (issue .release)
      fun _ => Outside i :=
    release_mine .done
  unfold reapIdle
  split
  · exact .done
  refine .op (fun _ _ _ => trivial) fun free => ?_
  cases free with
  | false =>
    refine ⟨_, stable_outside, fun w w' hout hm => ?_, .done⟩
    obtain ⟨-, rfl⟩ := of_guard_not hm.2.2.2
    exact hout
  | true =>
    refine ⟨_, stable_mine Calm, fun w w' _ hm => ?_, ?_⟩
    · obtain ⟨hfree, rfl⟩ := of_guard hm.2.2.2
      exact ⟨rfl, SlotInv.calm hm.1 hfree i⟩
    refine .pre (fun w _ h => ⟨h.1, h.2, trivial⟩) (check_mine (.reapCheck) trivial
      (fun _ => True) fun (r : Option ActiveSlot) => ?_)
    cases r with
    | none => exact hrelease.pre fun w _ h => ⟨h.1, h.2.1⟩
    | some old =>
      have hdone : (Section.reapDone none).Checks := trivial
      refine .pre (fun w _ h => ⟨h.1, h.2.1, trivial⟩) (closeOld_mine old (fun _ => True) ?_)
      exact closeDone_outline hdone (fun _ => True) fun _ => ⟨rfl, hrelease⟩

/-- Between the flag and the section that empties the slot, a stopped service still has a session. -/
theorem shutdown_outline :
    Respects b i shutdown := by
  refine .bind (fun r => ?_) (lockOperation_outline true)
  cases r with
  | some e => exact .ret fun w _ h => h.2 (Option.some_ne_none e)
  | none =>
    refine .pre (fun w _ h => h.1 rfl) (Outline.learn (fun _ => Mine i fun v =>
      v.running = none ∧ v.openSessions = (v.resident.map Prod.fst).toList) ?_
      (fun _ => stable_mine _) ?_ fun _ => ?_)
    · exact fun w _ h => h.1
    · intro w r w' h hm
      cases hm.2.2.2
      exact ⟨h.1, h.2.1.running, h.2.1.openSessions⟩
    · refine .learn (fun r => Mine i (Held (r.map ActiveSlot.sess)))
        (fun w _ h => ⟨h.1, h.2.1⟩) (fun _ => stable_mine _) ?_ fun r => ?_
      · intro w r w' h hm
        obtain ⟨hlock, hidle, hopen⟩ := h
        have hchecks : Section.shutdown.Checks := trivial
        obtain ⟨slot, htakes, hempties, rfl⟩ := check_of_enter hchecks (sem_of_move hm)
        have hnone : slot.resident = none := hempties trivial
        refine ⟨hlock, ?_⟩
        cases htaken : Option.map ActiveSlot.sess r with
        | none =>
          refine ⟨hidle, hnone, Eq.trans hopen ?_⟩
          change (w.slot.resident.map Prod.fst).toList = []
          rw [← htakes.kept htaken, hnone]
          rfl
        | some sess => exact htakes.inHand htaken hidle hopen
      · cases r with
        | none => exact .pre (fun w _ h => ⟨h.1, Vacant.calm h.2⟩) (release_mine .done)
        | some old =>
          refine .pre (fun w _ h => ⟨h.1, h.2, trivial⟩) (closeOld_mine old (fun _ => True) ?_)
          exact .pre (fun w _ h => ⟨h.1, h.2.1.calm⟩) (release_mine .done)

/-! ### Through a handle -/

/-- What the program that serves a call knows. -/
def Engaged (c : Call) (gen : Nat) (v : View) : Prop := Serving c gen v ∧ v.stopped = false

section Calls

variable {c : Call} {gen : Nat}

/-- An operation begins: the resident session has the generation of the handle. -/
theorem begin_mine {h : Nat} {op : String} {k : BeginVerdict → SlotProg α}
    (hrefused : ∀ e, Proves b i (Mine i Working) (k (.refused e)) Q)
    (hbegun : ∀ sess, Proves b i
      (fun w => Mine i (fun v => Working v ∧ v.resident = some (sess, gen)) w ∧ Named w.handles h gen)
      (k (.begun sess)) Q) :
    Proves b i (fun w => Mine i Working w ∧ Named w.handles h gen)
      (issue (.enter (.beginOperation gen op)) >>= k) Q := by
  have hchecks : (Section.beginOperation gen op).Checks := trivial
  refine .op (fun w _ h => ⟨h.1.1, h.1.2.1.running⟩) fun r => ?_
  cases r with
  | refused e =>
    refine ⟨_, stable_mine _, fun w w' h hm => ?_, hrefused e⟩
    obtain ⟨slot, htakes, -, rfl⟩ := check_of_enter hchecks (sem_of_move hm)
    exact ⟨h.1.1, htakes.view rfl ▸ h.1.2.1, h.1.2.2⟩
  | begun sess =>
    refine ⟨_, (stable_mine _).and ((persistent_named h gen).stable i), fun w w' h hm => ?_,
      hbegun sess⟩
    obtain ⟨hrun, -⟩ := slot_of_enter (sem_of_move hm)
    obtain ⟨slot, htakes, -, rfl⟩ := check_of_enter hchecks (sem_of_move hm)
    refine ⟨⟨h.1.1, ⟨htakes.view (i := i) rfl ▸ h.1.2.1, h.1.2.2⟩, ?_⟩, h.2⟩
    exact (htakes.kept rfl).trans (begun_resident w.slot w.clock hrun)

theorem call_mine {h sess : Nat} {k : Unit → SlotProg α}
    (hk : Proves b i (Mine i (Engaged ⟨h, sess⟩ gen)) (k ()) Q) :
    Proves b i
      (fun w => Mine i (fun v => Working v ∧ v.resident = some (sess, gen)) w ∧ Named w.handles h gen)
      (issue (.call h sess op) >>= k) Q := by
  have hopen : ∀ w : World ι, Calm (w.view i) → w.slot.resident = some (sess, gen) →
      w.openSessions = [sess] := by
    intro w hcalm hres
    have hopen : w.openSessions = (w.slot.resident.map Prod.fst).toList := hcalm.openSessions
    rw [hopen, hres]
    rfl
  refine .learn _ ?_ (fun _ => stable_mine _) ?_ fun _ => hk
  · intro w _ hw
    obtain ⟨⟨hlock, hworking, hres⟩, hnamed⟩ := hw
    exact ⟨hlock, hworking.1.running, gen, hnamed, hres, hopen w hworking.1 hres⟩
  · intro w r w' hw hm
    obtain ⟨⟨hlock, hworking, hres⟩, -⟩ := hw
    cases hm.2.2.2
    exact ⟨hlock, ⟨Function.update_self _ _ _, hres, hopen w hworking.1 hres⟩, hworking.2⟩

/-- The call is over, or nobody waits for it any more. -/
theorem over_mine (ho : o = .finish ∨ o = .abandon) (hk : ∀ r, Proves b i (Mine i Calm) (k r) Q) :
    Proves b i (Mine i (Engaged c gen)) (issue o >>= k) Q := by
  refine .learn _ ?_ (fun _ => stable_mine _) ?_ hk
  · intro w _ h
    rcases ho with rfl | rfl <;> exact h.1
  intro w r w' h hm
  obtain ⟨hlock, hserving, hstopped⟩ := h
  have hawake : w.stopped = false := hstopped
  have hopen : w.openSessions = (w.slot.resident.map Prod.fst).toList := by
    have hres : w.slot.resident = some (c.sess, gen) := hserving.resident
    rw [hres]
    exact hserving.openSessions
  have hend : ∀ abandoned, Mine i Calm { w.setRunning i none with abandoned := abandoned } := by
    refine fun abandoned => ⟨hlock, Function.update_self _ _ _, hopen, fun h => ?_⟩
    rw [show w.stopped = true from h] at hawake
    cases hawake
  rcases ho with rfl | rfl <;> cases hm.2.2.2 <;> exact hend _

end Calls

theorem withSession_outline (h gen : Nat) (op : SessionOp) :
    Proves b i (fun w => Outside i w ∧ Named w.handles h gen)
      (withSession h gen op) fun _ => Outside i := by
  refine underLock_frame (persistent_named h gen) (begin_mine (fun e => ?_) fun sess => ?_)
  · exact quit_mine
  refine call_mine (over_mine (.inl rfl) fun err => ?_)
  refine .bind (fun _ => ?_) (markReadyOrError_outline (op.report err))
  cases op.report err with
  | none | some _ => exact .done

/-- The generation a method works with is the one its handle has. -/
theorem handle_outline (h : Nat) {k : Option Handle → SlotProg α}
    (hnone : Proves b i (Outside i) (k none) Q)
    (hsome : ∀ hd : Handle, Proves b i
      (fun w => Outside i w ∧ Named w.handles h hd.generation) (k (some hd)) Q) :
    Proves b i (Outside i) (issue (.handle h) >>= k) Q := by
  refine .op (fun _ _ _ => trivial) fun r => ?_
  cases r with
  | none =>
    refine ⟨_, stable_outside, fun w w' hout hm => ?_, hnone⟩
    obtain ⟨-, rfl⟩ := of_guard hm.2.2.2
    exact hout
  | some hd =>
    refine ⟨_, stable_outside.and ((persistent_named h hd.generation).stable i),
      fun w w' hout hm => ?_, hsome hd⟩
    obtain ⟨hr, rfl⟩ := of_guard hm.2.2.2
    exact ⟨hout, hd, hr.symm, rfl⟩

theorem operate_outline (h : Nat) (op : SessionOp) : Respects b i (operate h op) := by
  refine handle_outline h .done fun hd => ?_
  refine .ite (fun _ => .ret fun _ _ h => h.1) fun _ => ?_
  cases op with
  | restore =>
    have hread : Respects b i (issue .readBlob) :=
      aside_outside (o := .readBlob) trivial fun _ => .done
    refine .bind (fun r => ?_) (hread.frame (persistent_named h hd.generation))
    cases r with
    | some e => exact .ret fun _ _ h => h.1
    | none => exact withSession_outline h hd.generation .restore
  | ensurePrefix | prefillSuffix | explainContext | snapshot =>
    exact withSession_outline h hd.generation _

/-- The call goes on until the stream is drained or given up. -/
theorem forwardChunks_outline (chunks : Nat) (streamErr : Option Err) :
    Proves b i (Mine i (Engaged c gen)) (forwardChunks chunks streamErr) fun _ => Mine i Calm := by
  have hend : ∀ streamErr, Proves b i (Mine i (Engaged c gen))
      (issue .finish >>= fun _ => ModelSlot.markReadyOrError streamErr) fun _ => Mine i Calm :=
    fun streamErr => over_mine (.inl rfl) fun _ => markReadyOrError_outline streamErr
  induction chunks generalizing streamErr with
  | zero => exact hend streamErr
  | succ chunks ih =>
    refine aside_mine (o := .receive) trivial fun r => ?_
    cases r with
    | none => exact hend streamErr
    | some chunkErr =>
      refine aside_mine (o := .forward) trivial fun r => ?_
      cases r with
      | none => exact ih (chunkErr.or streamErr)
      | some ctxErr => exact over_mine (.inr rfl) fun _ => markReadyOrError_outline (some ctxErr)

theorem decode_outline (h chunks : Nat) : Respects b i (decode h chunks) := by
  refine handle_outline h .done fun hd => ?_
  refine .ite (fun _ => .ret fun _ _ h => h.1) fun _ => ?_
  refine underLock_frame (persistent_named h hd.generation)
    (begin_mine (fun e => ?_) fun sess => ?_)
  · exact quit_mine
  refine call_mine (aside_mine (o := .started) trivial fun r => ?_)
  cases r with
  | some e =>
    refine over_mine (.inl rfl) fun _ => ?_
    refine .bind (fun _ => ?_) (markReadyOrError_outline (some e))
    exact .done
  | none =>
    refine .bind (fun _ => ?_) (forwardChunks_outline chunks none)
    exact .done

/-! ### Processes -/

theorem quietly_outline {p : SlotProg α} (hp : Respects b i p) : Respects b i (quietly p) := by
  refine .bind (fun _ => ?_) hp
  exact .done

theorem action_outline (a : Action) : Respects b i (a.prog cfg) := by
  cases a with
  | loadModel expected req => exact quietly_outline (loadModel_outline cfg expected req)
  | unloadModel owner expected => exact quietly_outline (unloadModel_outline cfg owner expected)
  | openSession req => exact quietly_outline (openSession_outline cfg req)
  | embed req => exact quietly_outline (embed_outline cfg req)
  | operate h op => exact quietly_outline (operate_outline h op)
  | decode h chunks => exact quietly_outline (decode_outline h chunks)
  | close h => exact quietly_outline (closeHandle_outline h)
  | reapIdle => exact reapIdle_outline cfg
  | shutdown => exact quietly_outline shutdown_outline
  | tick => exact aside_outside (o := .tick) trivial fun _ => .done
  | streamEnds h sess =>
    exact aside_outside (o := .streamEnds h sess) trivial fun _ => .done

/-- Between its actions a process does not have the lock. -/
theorem process_outline : ∀ actions : List Action,
    Respects b i (process cfg actions)
  | [] => .done
  | a :: rest => Outline.bind (fun _ => process_outline rest) (action_outline cfg a)

end

/-! ## 5. Every run -/

section

/-- `New`: an empty slot at some time. -/
def World.new (now : Int) : World ι where
  clock := now
  slot := ⟨none, 0, .empty, "", "", now⟩
  stopped := false
  lock := none
  handles := []
  next := 0
  openSessions := []
  closed := []
  installed := []
  running _ := none
  abandoned := []

theorem slotInv_new (waits : Bool) (now : Int) : SlotInv waits (World.new now : World ι) where
  fresh _ h := by cases h
  one := Nat.zero_le 1
  counted sess := by simp [World.new]
  rest _ := ⟨rfl, fun _ => rfl⟩
  resident _ h := by cases h
  installed _ h := by cases h
  unique _ h := by cases h
  running _ _ h := by cases h
  abandoned _ h := by cases h

/-- What is said of the sessions.  The backend numbers them in the order it opens them. -/
structure OneAtATime (waits : Bool) (w : World ι) : Prop where
  one : w.openSessions.length ≤ 1
  /-- each session that was opened is open, or was closed once -/
  once : ∀ sess, w.closed.count sess = if sess < w.next ∧ sess ∉ w.openSessions then 1 else 0
  /-- while nobody is at work, only the resident session is open, and none after a shutdown -/
  settled : w.lock = none → w.openSessions = (w.slot.resident.map Prod.fst).toList ∧
    (w.stopped = true → w.openSessions = [])
  /-- a generation stands for one session -/
  unique : ∀ p ∈ w.installed, ∀ q ∈ w.installed, p.2 = q.2 → p = q
  /-- a call runs on the open session of its handle's generation -/
  served : ∀ i c, w.running i = some c → c.sess ∈ w.openSessions ∧
    ∃ gen, Named w.handles c.handle gen ∧ (c.sess, gen) ∈ w.installed
  /-- so does a stream whose client left, as far as the backend's closing waits for it -/
  abandoned : ∀ c ∈ w.abandoned, (waits = true → c.sess ∈ w.openSessions) ∧
    ∃ gen, Named w.handles c.handle gen ∧ (c.sess, gen) ∈ w.installed

/-- What the invariant says about the open sessions. -/
theorem SlotInv.oneAtATime (h : SlotInv waits w) : OneAtATime waits w where
  one := h.one
  once := h.counted
  settled hfree := by
    obtain ⟨hopen, hstopped⟩ := h.rest hfree
    refine ⟨hopen, fun hs => ?_⟩
    rw [hopen, hstopped hs]
    rfl
  unique := h.unique
  served i c hc := by
    obtain ⟨-, gen, hnamed, hserving⟩ := h.running i c hc
    have hopen : w.openSessions = [c.sess] := hserving.openSessions
    exact ⟨hopen ▸ List.mem_singleton_self _, gen, hnamed, h.resident _ hserving.resident⟩
  abandoned c hc := ⟨(h.abandoned c hc).2, (h.abandoned c hc).1⟩

variable [DecidableEq ι]

theorem persistent_generation (waits : Bool) (idleTTL : Int) (n : Nat) :
    (slotContract ι waits idleTTL).Persistent fun w => n ≤ w.slot.generation := by
  intro j w o r w' hm h
  cases effect_of_sem hm.2.2.2 with
  | check hsec htakes => exact Nat.le_trans h htakes.generation
  | install req sess refs explicit key hgen hres => exact Nat.le_trans h (hgen ▸ Nat.le_succ _)
  | _ => exact h

/-- **One session at a time**, in every run of the slot service whose backend closes succeed. -/
theorem slot_sessions_exclusive (waits : Bool) (cfg : Config) (actions : ι → List Action) (now : Int)
    {c : Lib.Config ι (World ι) Op Op.Res Unit}
    (hr : Reach (sem waits cfg.idleTTL) ClosesSucceed
      ⟨World.new now, fun i => process cfg (actions i)⟩ c) :
    OneAtATime waits c.store ∧ (∀ i, c.pool i = .ret () → c.store.lock ≠ some i) ∧
      ∀ c', Reach (sem waits cfg.idleTTL) ClosesSucceed c c' →
        c.store.slot.generation ≤ c'.store.slot.generation := by
  have hpres := slotContract_preserved (ι := ι) waits cfg.idleTTL
  have hinv := slotInv_new (ι := ι) waits now
  have hst : ∀ i : ι, (slotContract ι waits cfg.idleTTL).Stable i (Outside i) := fun i =>
    stable_outside (b := ⟨waits, cfg.idleTTL⟩)
  have hout : ∀ i : ι, Outside i (World.new now) := fun i => nofun
  have hpool : ∀ i, (slotContract ι waits cfg.idleTTL).Outline i (Outside i)
      (process cfg (actions i)) fun _ => Outside i := fun i =>
    process_outline (b := ⟨waits, cfg.idleTTL⟩) cfg (actions i)
  refine ⟨?_, fun i hret => ?_, fun c' hr' => ?_⟩
  · have h := (Contract.reach_outline hpres hinv hst hout hpool hr).1
    exact SlotInv.oneAtATime h
  · exact Contract.reach_post hpres hinv hst hout hpool hr hret
  · exact Contract.reach_persistent hpres hinv hst hout hpool
      (persistent_generation waits cfg.idleTTL c.store.slot.generation) hr hr' (Nat.le_refl _)

end

def anyModel : OpenSessionRequest := ⟨"", "m", "llama", "", "/m.gguf", "", []⟩

/-- One client opens a session and takes a snapshot; somebody shuts the service down. -/
def clientAndShutdown (i : Bool) : List Action :=
  if i then [.openSession anyModel, .operate 0 .snapshot] else [.shutdown]

/-- While the snapshot is being taken, on the one session there is, the shutdown waits; then it closes
the session. -/
theorem slot_sessions_exclusive_serving : ∃ c c',
    Reach (sem true 0) ClosesSucceed
      ⟨World.new 0, fun i => process ⟨"", 0⟩ (clientAndShutdown i)⟩ c ∧
    c.store.running true = some ⟨0, 0⟩ ∧ OneAtATime true c.store ∧
    Reach (sem true 0) ClosesSucceed
      ⟨World.new 0, fun i => process ⟨"", 0⟩ (clientAndShutdown i)⟩ c' ∧
    c'.store.closed = [0] ∧ OneAtATime true c'.store := by
  have run := (Reach.start : Reach (sem true 0) ClosesSucceed
      ⟨World.new 0, fun i => process ⟨"", 0⟩ (clientAndShutdown i)⟩ _)
    |>.step true .ctxErr none
    |>.step true (.resolveModelPath anyModel) (.ok anyModel)
    |>.step true (.acquire true) none
    |>.step true .isStopped false
    |>.step true .ctxErr none
    |>.step true (.enter (.openCheck anyModel)) .proceed
    |>.step true (.snapshotKey anyModel) ""
    |>.step true (.openSession anyModel) (.opened 0)
    |>.step true (.readSnapshot "") false
    |>.step true (.enter (.install anyModel 0 1 false "")) (1 : Nat)
    |>.step true .release ()
    |>.step true (.newHandle 1) (0 : Nat)
    |>.step true (.handle 0) (some ⟨1, false⟩)
    |>.step true (.acquire true) none
    |>.step true .isStopped false
    |>.step true .ctxErr none
    |>.step true (.enter (.beginOperation 1 "snapshot")) (.begun 0)
    |>.step true (.call 0 0 "snapshot") ()
  have next := run
    |>.step true .finish none
    |>.step true (.enter (.markReadyOrError none)) none
    |>.step true .release ()
    |>.step false (.acquire true) none
    |>.step false .isStopped false
    |>.step false .stop ()
    |>.step false (.enter .shutdown) (some ⟨anyModel, 0, 1, 1, false, ""⟩)
    |>.step false (.snapshotDir "") false
    |>.step false (.closeSession 0) none rfl rfl
  have hone := fun c hr => (slot_sessions_exclusive true ⟨"", 0⟩ clientAndShutdown 0 (c := c) hr).1
  exact ⟨_, _, run, rfl, hone _ run, next, rfl, hone _ next⟩

end Contenox.ModelSlot
