/-
# How long a turn lives

A turn that was torn down is not in the registry any more, but its function may still be running; the
next `Start` of the session then starts a second one beside it (`restarted_beside_running`).  In every
run in which a session is started again only when the functions of its torn-down turns have returned,
a session has one function running.

The other half needs no condition: the context of a running turn is done only for a reason, and the
grace timer is one only after a whole window in which nobody was watching (`turn_lifetimes`).  Every
fact this rests on is one that nobody destroys: a turn that was torn down stays so, a function that
returned stays so, a long vacancy stays in the history.
-/
import Contenox.NativeTurn.Registry
import Mathlib.Order.Basic

namespace Contenox.NativeTurn

open Lib
open Lib.Contract (Outline)

/-! ## 1. One turn -/

variable {cfg : Config} {clock clock' : Int}

/-- For a whole grace window nobody was watching. -/
def LongVacant (cfg : Config) (clock : Int) (t : Turn) : Prop :=
  (∃ p ∈ t.vacancies, p.1 + cfg.graceWindow ≤ p.2) ∨
    ∃ since, t.vacantSince = some since ∧ since + cfg.graceWindow ≤ clock

/-- What a turn may be torn down for. -/
def Justified (cfg : Config) (clock : Int) (t : Turn) : Why → Prop
  | .cancel | .close => True
  | .grace => LongVacant cfg clock t
  | .finished => t.phase = .returned
  | .deadline => t.deadline ≤ clock

/-- What a step can do to a turn. -/
inductive Change (cfg : Config) (clock : Int) : (o : Op) → o.Res → Turn → Turn → Prop
  | same (o : Op) (r : o.Res) (t : Turn) : Change cfg clock o r t t
  | attach (n : Nat) (v : String) (t : Turn) :
      Change cfg clock (.attach n v) true t (t.attach clock v)
  | detach (n : Nat) (v : String) (r : Bool × Bool) (t : Turn) (h : v ∈ t.viewers) :
      Change cfg clock (.detach n v) (some r) t (t.detach cfg clock v)
  | markFinished (n : Nat) (res : Result) (k : Nat) (t : Turn) :
      Change cfg clock (.markFinished n res) (some k) t (t.markFinished res)
  | swap (n : Nat) (why : Why) (t : Turn) (h : t.reaping = none) :
      Change cfg clock (.compareAndSwap n why) true t { t with reaping := some why }
  | cancel (n : Nat) (r : Unit) (t : Turn) :
      Change cfg clock (.cancel n) r t { t with cancelled := true }
  | stopTimer (o : Op) (r : o.Res) (t : Turn) : Change cfg clock o r t { t with graceTimer := none }
  | launch (n : Nat) (r : Unit) (t : Turn) (h : t.phase = .created) :
      Change cfg clock (.launch n) r t { t with phase := .launched }
  | begins (n : Nat) (r : Unit) (t : Turn) (h : t.phase = .launched) :
      Change cfg clock (.begins n) r t { t with phase := .running }
  | returns (n : Nat) (r : Result) (t : Turn) (h : t.phase = .running) :
      Change cfg clock (.returns n) r t { t with phase := .returned }

/-- What stays true of a turn. -/
structure Later (cfg : Config) (clock clock' : Int) (t t' : Turn) : Prop where
  sessionID : t'.sessionID = t.sessionID
  deadline : t'.deadline = t.deadline
  reaping : ∀ why, t.reaping = some why → t'.reaping = some why
  returned : t.phase = .returned → t'.phase = .returned
  vacant : LongVacant cfg clock t → LongVacant cfg clock' t'

variable {t : Turn}

theorem LongVacant.mono (hle : clock ≤ clock') (h : LongVacant cfg clock t) :
    LongVacant cfg clock' t := by
  rcases h with h | ⟨since, hs, hlong⟩
  · exact .inl h
  · exact .inr ⟨since, hs, by omega⟩

theorem later_refl (hle : clock ≤ clock') (t : Turn) : Later cfg clock clock' t t :=
  ⟨rfl, rfl, fun _ h => h, fun h => h, LongVacant.mono hle⟩

variable {t' : Turn} {why : Why}

theorem Justified.later (hle : clock ≤ clock') (hlater : Later cfg clock clock' t t')
    (h : Justified cfg clock t why) : Justified cfg clock' t' why := by
  cases why with
  | cancel | close => trivial
  | grace => exact hlater.vacant h
  | finished => exact hlater.returned h
  | deadline =>
    have hdeadline : t.deadline ≤ clock := h
    change t'.deadline ≤ clock'
    rw [hlater.deadline]
    omega

/-- The invariant of a turn. -/
structure TurnInv (cfg : Config) (clock : Int) (t : Turn) : Prop where
  finished : t.finished = true → t.phase = .returned
  cancelled : t.cancelled = true → t.phase = .returned ∨ t.reaping ≠ none
  justified : ∀ why, t.reaping = some why → Justified cfg clock t why
  graceTimer : ∀ due, t.graceTimer = some due →
    ∃ since, t.vacantSince = some since ∧ due = since + cfg.graceWindow
  graceDeadline : ∀ d, t.graceDeadline = some d →
    ∃ since, t.vacantSince = some since ∧ d = since + cfg.graceWindow
  watched : t.vacantSince = none ↔ t.viewers ≠ []

/-- What the programs see to before they change a turn. -/
def Proper (cfg : Config) (clock : Int) (t : Turn) : Op → Prop
  | .cancel _ => t.phase = .returned ∨ t.reaping ≠ none
  | .markFinished _ _ => t.phase = .returned
  | .compareAndSwap _ why => Justified cfg clock t why
  | _ => True

section Changes

variable {clock : Int} {o : Op} {r : o.Res} {t t' : Turn}

/-- A viewer leaves: another one stays, or nobody does. -/
theorem detach_cases (cfg : Config) (t : Turn) (clock : Int) (v : String) :
    (t.viewers.erase v ≠ [] ∧ t.detach cfg clock v = { t with viewers := t.viewers.erase v }) ∨
    (t.viewers.erase v = [] ∧ ∃ timer, (timer = none ∨ timer = some (clock + cfg.graceWindow)) ∧
      t.detach cfg clock v = { t with
        viewers := t.viewers.erase v
        vacantSince := some clock
        graceTimer := timer.or t.graceTimer
        graceDeadline := timer.or t.graceDeadline }) := by
  unfold Turn.detach
  dsimp only
  split
  · next hempty =>
    refine .inr ⟨hempty, ?_⟩
    split
    · exact ⟨none, .inl rfl, rfl⟩
    · exact ⟨some (clock + cfg.graceWindow), .inr rfl, rfl⟩
  · next hrest => exact .inl ⟨hrest, rfl⟩

theorem later_detach {v : String} (hinv : TurnInv cfg clock t) (hv : v ∈ t.viewers) :
    Later cfg clock clock t (t.detach cfg clock v) := by
  have hnone : t.vacantSince = none := hinv.watched.mpr (List.ne_nil_of_mem hv)
  obtain ⟨-, heq⟩ | ⟨-, timer, -, heq⟩ := detach_cases cfg t clock v <;> rw [heq]
  · exact ⟨rfl, rfl, fun _ h => h, fun h => h, fun h => h⟩
  refine ⟨rfl, rfl, fun _ h => h, fun h => h, fun h => ?_⟩
  rcases h with h | ⟨since, hs, -⟩
  · exact .inl h
  · rw [hnone] at hs
    cases hs

theorem later_attach (t : Turn) (clock : Int) (v : String) :
    Later cfg clock clock t (t.attach clock v) := by
  refine ⟨rfl, rfl, fun _ h => h, fun h => h, fun h => ?_⟩
  rcases h with ⟨p, hp, hlong⟩ | ⟨since, hs, hlong⟩
  · exact .inl ⟨p, List.mem_append_right _ hp, hlong⟩
  refine .inl ⟨(since, clock), List.mem_append_left _ ?_, hlong⟩
  rw [hs]
  exact List.mem_singleton_self _

variable (hinv : TurnInv cfg clock t)

include hinv

/-- A turn changes in one direction only. -/
theorem Change.later (h : Change cfg clock o r t t') : Later cfg clock clock t t' := by
  cases h with
  | same | cancel _ _ _ | stopTimer _ _ _ | markFinished _ _ _ _ =>
    exact ⟨rfl, rfl, fun _ h => h, fun h => h, fun h => h⟩
  | attach n v t => exact later_attach t clock v
  | detach n v r t hv => exact later_detach hinv hv
  | swap n why t hnone =>
    refine ⟨rfl, rfl, fun why' h => ?_, fun h => h, fun h => h⟩
    rw [hnone] at h
    cases h
  | launch n r t hphase | begins n r t hphase =>
    refine ⟨rfl, rfl, fun _ h => h, fun h => ?_, fun h => h⟩
    rw [hphase] at h
    cases h
  | returns n r t hphase => exact ⟨rfl, rfl, fun _ h => h, fun _ => rfl, fun h => h⟩

theorem inv_attach (v : String) : TurnInv cfg clock (t.attach clock v) where
  finished := hinv.finished
  cancelled := hinv.cancelled
  justified why hwhy := (hinv.justified why hwhy).later (Int.le_refl _) (later_attach t clock v)
  graceTimer due h := by cases h
  graceDeadline d h := by cases h
  watched := ⟨fun _ => List.append_ne_nil_of_right_ne_nil _ (List.cons_ne_nil v []), fun _ => rfl⟩

theorem inv_detach {v : String} (hv : v ∈ t.viewers) :
    TurnInv cfg clock (t.detach cfg clock v) := by
  have hlater := later_detach hinv hv
  have hnone : t.vacantSince = none := hinv.watched.mpr (List.ne_nil_of_mem hv)
  -- nothing is pending while somebody watches
  have hidle : ∀ {pending : Option Int}, (∀ due, pending = some due →
      ∃ since, t.vacantSince = some since ∧ due = since + cfg.graceWindow) → pending = none := by
    intro pending hpending
    refine Option.eq_none_iff_forall_ne_some.mpr fun due hdue => ?_
    obtain ⟨since, hs, -⟩ := hpending due hdue
    rw [hnone] at hs
    cases hs
  obtain ⟨hrest, heq⟩ | ⟨hempty, timer, hwhen, heq⟩ := detach_cases cfg t clock v
  · rw [heq] at hlater ⊢
    refine ⟨hinv.finished, hinv.cancelled, fun why hwhy => ?_, ?_, ?_, ?_⟩
    · exact (hinv.justified why hwhy).later (Int.le_refl _) hlater
    · exact hinv.graceTimer
    · exact hinv.graceDeadline
    · exact ⟨fun _ => hrest, fun _ => hnone⟩
  · rw [heq] at hlater ⊢
    rw [hidle hinv.graceTimer, hidle hinv.graceDeadline] at hlater ⊢
    have hset : ∀ due, timer.or none = some due →
        ∃ since, some clock = some since ∧ due = since + cfg.graceWindow := by
      intro due hdue
      rcases hwhen with rfl | rfl
      · cases hdue
      · cases hdue
        exact ⟨clock, rfl, rfl⟩
    refine ⟨hinv.finished, hinv.cancelled, fun why hwhy => ?_, hset, hset, ?_⟩
    · exact (hinv.justified why hwhy).later (Int.le_refl _) hlater
    · exact ⟨nofun, fun h => absurd hempty h⟩

/-- A change that is proper keeps the invariant. -/
theorem Change.inv (hproper : Proper cfg clock t o)
    (h : Change cfg clock o r t t') : TurnInv cfg clock t' := by
  have hlater := h.later hinv
  cases h with
  | same => exact hinv
  | attach n v t => exact inv_attach hinv v
  | detach n v r t hv => exact inv_detach hinv hv
  | markFinished n res k t =>
    exact { hinv with finished := fun _ => hproper, graceTimer := nofun, graceDeadline := nofun }
  | swap n why t hnone =>
    refine ⟨hinv.finished, fun _ => .inr (Option.some_ne_none why), fun why' hwhy => ?_,
      hinv.graceTimer, hinv.graceDeadline, hinv.watched⟩
    cases hwhy
    exact hproper.later (Int.le_refl _) hlater
  | cancel n r t =>
    exact { hinv with cancelled := fun _ => hproper }
  | stopTimer o r t =>
    exact { hinv with graceTimer := nofun }
  | launch n r t hphase | begins n r t hphase =>
    refine ⟨fun h => ?_, fun h => ?_, fun why hwhy => (hinv.justified why hwhy).later (Int.le_refl _) hlater,
      hinv.graceTimer, hinv.graceDeadline, hinv.watched⟩
    · exact absurd (hinv.finished h) (hphase ▸ nofun)
    rcases hinv.cancelled h with hret | hreap
    · exact absurd hret (hphase ▸ nofun)
    · exact .inr hreap
  | returns n r t hphase =>
    exact { hinv with
      finished := fun _ => rfl
      cancelled := fun _ => .inl rfl
      justified := fun why hwhy => (hinv.justified why hwhy).later (Int.le_refl _) hlater }

end Changes

/-! ## 2. What a step does -/

/-- The turn a step is on. -/
def Op.turn : Op → Option Nat
  | .attach n _ | .detach n _ | .isFinished n | .snapshot n | .markFinished n _ | .compareAndSwap n _
  | .cancel n | .stopTimer n | .launch n | .begins n | .returns n | .fire n => some n
  | _ => none

inductive Effect (cfg : Config) (w : World) : (o : Op) → o.Res → World → Prop
  | same (o : Op) (r : o.Res) : Effect cfg w o r w
  | tick (t : Int) (h : w.clock ≤ t) : Effect cfg w .tick t { w with clock := t }
  | create (sid : String) (hopen : w.closed = false) (hjoin : w.joinable sid = none) :
      Effect cfg w (.start sid) (.fresh w.turns.length) (w.create cfg sid)
  | close (r : List Nat) :
      Effect cfg w .close (some r) { w with closed := true, sessions := fun _ => none }
  | rootCancel (r : Unit) : Effect cfg w .rootCancel r { w with rootCancelled := true }
  | remove (n : Nat) (r : Unit) : Effect cfg w (.removeSession n) r (w.remove n)
  | turn {o : Op} {r : o.Res} (n : Nat) (t t' : Turn) (ht : w.turns[n]? = some t)
      (hturn : o.turn = some n) (h : Change cfg w.clock o r t t') : Effect cfg w o r (w.put n t')

variable {sid : String}

section Steps

variable {ι : Type} {i : ι} {w w' : World} {o : Op} {r : o.Res} {n : Nat} {p : Turn → Prop}
  {f : Turn → Turn}

theorem of_step {_ : DecidablePred p} (h : w.step n p f = some w') :
    ∃ t, w.turns[n]? = some t ∧ p t ∧ w' = w.put n (f t) := by
  obtain ⟨t, ht, h⟩ := Option.bind_eq_some_iff.mp h
  obtain ⟨hp, rfl⟩ := of_guard h
  exact ⟨t, ht, hp, rfl⟩

theorem effect_of_step {_ : DecidablePred p} (h : w.step n p f = some w') (hturn : o.turn = some n)
    (hchange : ∀ t, p t → Change cfg w.clock o r t (f t)) : Effect cfg w o r w' := by
  obtain ⟨t, ht, hp, rfl⟩ := of_step h
  exact .turn n t (f t) ht hturn (hchange t hp)

theorem effect_of_sem (h : sem cfg i w o r = some w') : Effect cfg w o r w' := by
  cases o with
  | tick =>
    obtain ⟨hle, rfl⟩ := of_guard h
    exact .tick _ hle
  | start sid =>
    cases r with
    | closed | join n =>
      obtain ⟨-, rfl⟩ := of_guard h
      exact .same _ _
    | fresh n =>
      obtain ⟨⟨hopen, hjoin, rfl⟩, rfl⟩ := of_guard h
      exact .create sid hopen hjoin
  | now | lookup _ | live =>
    obtain ⟨-, rfl⟩ := of_guard h
    exact .same _ _
  | close =>
    cases r with
    | none =>
      obtain ⟨-, rfl⟩ := of_guard h
      exact .same _ _
    | some r =>
      obtain ⟨-, rfl⟩ := of_guard h
      exact .close r
  | rootCancel =>
    cases h
    exact .rootCancel _
  | removeSession n =>
    cases h
    exact .remove n _
  | attach n v =>
    cases r with
    | true => exact effect_of_step h rfl fun t _ => .attach n v t
    | false => exact effect_of_step h rfl fun t _ => .same _ _ t
  | detach n v =>
    cases r with
    | none => exact effect_of_step h rfl fun t _ => .same _ _ t
    | some r => exact effect_of_step h rfl fun t ht => .detach n v r t ht.1
  | isFinished _ | snapshot _ => exact effect_of_step h rfl fun t _ => .same _ _ t
  | markFinished n res =>
    cases r with
    | none => exact effect_of_step h rfl fun t _ => .same _ _ t
    | some k => exact effect_of_step h rfl fun t _ => .markFinished n res k t
  | compareAndSwap n why =>
    cases r with
    | true => exact effect_of_step h rfl fun t ht => .swap n why t ht
    | false => exact effect_of_step h rfl fun t _ => .same _ _ t
  | cancel n => exact effect_of_step h rfl fun t _ => .cancel n _ t
  | launch n => exact effect_of_step h rfl fun t ht => .launch n _ t ht
  | begins n => exact effect_of_step h rfl fun t ht => .begins n _ t ht
  | returns n => exact effect_of_step h rfl fun t ht => .returns n _ t ht
  | stopTimer _ | fire _ => exact effect_of_step h rfl fun t _ => .stopTimer _ _ t

/-- A turn after one of them was replaced. -/
theorem turn_of_put {m : Nat} (ht : (w.put n t').turns[m]? = some t) :
    n = m ∧ t = t' ∨ n ≠ m ∧ w.turns[m]? = some t := by
  unfold World.put at ht
  by_cases hnm : n = m
  · subst hnm
    rw [List.getElem?_set_self'] at ht
    obtain ⟨-, -, rfl⟩ := Option.map_eq_some_iff.mp ht
    exact .inl ⟨rfl, rfl⟩
  · rw [List.getElem?_set_ne hnm] at ht
    exact .inr ⟨hnm, ht⟩

theorem put_self (ht : w.turns[n]? = some t) : (w.put n t').turns[n]? = some t' := by
  unfold World.put
  rw [List.getElem?_set_self', ht]
  rfl

/-- A new turn at the end, or an old one at its place. -/
theorem turn_of_create {m : Nat} (ht : (w.create cfg sid).turns[m]? = some t) :
    w.turns[m]? = some t ∨ m = w.turns.length ∧ t = newTurnSession cfg w.clock sid := by
  have ht : (w.turns ++ [newTurnSession cfg w.clock sid])[m]? = some t := ht
  rcases Nat.lt_trichotomy m w.turns.length with hlt | rfl | hgt
  · exact .inl (List.getElem?_append_left hlt ▸ ht)
  · rw [List.getElem?_concat_length] at ht
    exact .inr ⟨rfl, (Option.some.inj ht).symm⟩
  · rw [List.getElem?_eq_none (by simp; omega)] at ht
    cases ht

end Steps

/-! ## 3. The contract -/

/-- The turn is there, and this is so of it. -/
def Fact (n : Nat) (P : Int → Turn → Prop) (w : World) : Prop :=
  ∃ t, w.turns[n]? = some t ∧ P w.clock t

def Reaped (_ : Int) (t : Turn) : Prop := t.reaping ≠ none

def Returned (_ : Int) (t : Turn) : Prop := t.phase = .returned

variable (cfg) in
/-- There is a reason to tear the turn down; anybody may cancel it. -/
def Because (n : Nat) (w : World) : Why → Prop
  | .cancel | .close => True
  | why => Fact n (Justified cfg · · why) w

variable (cfg) in
/-- What a program sees to before a step. -/
def Allowed (w : World) : Op → Prop
  | .removeSession n => Fact n Reaped w
  | .rootCancel => w.closed = true
  | .cancel n => Fact n Reaped w ∨ Fact n Returned w
  | .markFinished n _ => Fact n Returned w
  | .compareAndSwap n why => Because cfg n w why
  | _ => True

variable (cfg) in
structure RegInv (w : World) : Prop where
  turns : ∀ (n : Nat) (t : Turn), w.turns[n]? = some t → TurnInv cfg w.clock t
  /-- a turn that was not torn down is in the registry while its function has not returned -/
  registered : w.closed = false → ∀ (n : Nat) (t : Turn), w.turns[n]? = some t → t.reaping = none →
    t.phase ≠ .returned → w.sessions t.sessionID = some n
  root : w.rootCancelled = true → w.closed = true

/-- A session has one turn whose function has not returned. -/
def OneEach (w : World) : Prop :=
  ∀ (n m : Nat) (t t' : Turn), w.turns[n]? = some t → w.turns[m]? = some t' →
    t.sessionID = t'.sessionID → t.phase ≠ .returned → t'.phase ≠ .returned → n = m

/-- A session is started only when the functions of its torn-down turns have returned. -/
def EndedFirst {ι : Type} : Lib.StepCond ι World Op Op.Res
  | _, w, .start sid, _ => ∀ t ∈ w.turns, t.sessionID = sid → t.reaping ≠ none → t.phase = .returned
  | _, _, _, _ => True

section Contract

variable {ι : Type} {i : ι} {w w' : World} {o : Op} {r : o.Res} {n : Nat} {t : Turn}

theorem proper_of_allowed (hallowed : Allowed cfg w o) (ht : w.turns[n]? = some t)
    (hturn : o.turn = some n) : Proper cfg w.clock t o := by
  have hfact : ∀ {m : Nat} {P : Int → Turn → Prop}, some m = some n → Fact m P w → P w.clock t := by
    intro m P hm h
    obtain ⟨t', ht', h⟩ := h
    rw [Option.some.inj hm, ht] at ht'
    cases ht'
    exact h
  cases o with
  | cancel m =>
    rcases hallowed with h | h
    · exact .inr (hfact hturn h)
    · exact .inl (hfact hturn h)
  | markFinished m res => exact hfact hturn hallowed
  | compareAndSwap m why =>
    cases why with
    | cancel | close => trivial
    | grace => exact hfact (P := (Justified cfg · · .grace)) hturn hallowed
    | finished => exact hfact (P := (Justified cfg · · .finished)) hturn hallowed
    | deadline => exact hfact (P := (Justified cfg · · .deadline)) hturn hallowed
  | _ => trivial

/-- A turn that a step leaves unreaped and unreturned was so before. -/
theorem Later.before (h : Later cfg clock clock' t t') :
    (t'.reaping = none → t.reaping = none) ∧ (t'.phase ≠ .returned → t.phase ≠ .returned) := by
  refine ⟨fun hnone => ?_, fun hphase hret => hphase (h.returned hret)⟩
  cases hreaping : t.reaping with
  | none => rfl
  | some why =>
    rw [h.reaping why hreaping] at hnone
    cases hnone

/-- The turn a fresh one would stand beside: it was torn down. -/
theorem reaped_of_fresh (hinv : RegInv cfg w) (hopen : w.closed = false)
    (hjoin : w.joinable sid = none) (ht : w.turns[n]? = some t) (hsid : t.sessionID = sid)
    (hphase : t.phase ≠ .returned) : t.reaping ≠ none := by
  intro hnone
  have hreg : w.sessions sid = some n := hsid ▸ hinv.registered hopen n t ht hnone hphase
  have hlive : t.finished = false := by
    by_contra hfinished
    exact hphase ((hinv.turns n t ht).finished (Bool.not_eq_false _ ▸ hfinished))
  unfold World.joinable at hjoin
  rw [hreg] at hjoin
  simp [Option.filter, ht, hlive] at hjoin

theorem newTurn_inv (clock : Int) (sid : String) :
    TurnInv cfg clock (newTurnSession cfg clock sid) where
  finished := nofun
  cancelled := nofun
  justified := nofun
  graceTimer := nofun
  graceDeadline := nofun
  watched := ⟨nofun, fun h => absurd rfl h⟩

variable (hinv : RegInv cfg w) {ok : Lib.StepCond ι World Op Op.Res}

include hinv

/-- A turn starts where none can be joined. -/
theorem RegInv.create (hopen : w.closed = false) (hjoin : w.joinable sid = none) :
    RegInv cfg (w.create cfg sid) where
  turns n t ht := by
    rcases turn_of_create ht with ht | ⟨-, rfl⟩
    · exact hinv.turns n t ht
    · exact newTurn_inv w.clock sid
  registered _ n t ht hnone hphase := by
    change Function.update w.sessions sid (some w.turns.length) t.sessionID = some n
    rcases turn_of_create ht with ht | ⟨rfl, rfl⟩
    · have hsid : t.sessionID ≠ sid := fun hsid =>
        reaped_of_fresh hinv hopen hjoin ht hsid hphase hnone
      rw [Function.update_of_ne hsid]
      exact hinv.registered hopen n t ht hnone hphase
    · exact Function.update_self _ _ _
  root := hinv.root

theorem RegInv.put (ht : w.turns[n]? = some t) (hlater : Later cfg w.clock w.clock t t')
    (hturn : TurnInv cfg w.clock t') : RegInv cfg (w.put n t') where
  turns m u hu := by
    rcases turn_of_put hu with ⟨-, rfl⟩ | ⟨-, hu⟩
    · exact hturn
    · exact hinv.turns m u hu
  registered hopen m u hu hnone hphase := by
    rcases turn_of_put hu with ⟨rfl, rfl⟩ | ⟨-, hu⟩
    · rw [hlater.sessionID]
      exact hinv.registered hopen n t ht (hlater.before.1 hnone) (hlater.before.2 hphase)
    · exact hinv.registered hopen m u hu hnone hphase
  root := hinv.root

/-- A reaped turn is taken out of the registry. -/
theorem RegInv.remove (hreaped : Fact n Reaped w) : RegInv cfg (w.remove n) where
  turns := hinv.turns
  registered hopen m t ht hnone hphase := by
    have hreg := hinv.registered hopen m t ht hnone hphase
    have hmn : m ≠ n := by
      rintro rfl
      obtain ⟨t', ht', hreaped⟩ := hreaped
      rw [show w.turns[m]? = some t from ht] at ht'
      cases ht'
      exact hreaped hnone
    change (if w.sessions t.sessionID = some n then none else w.sessions t.sessionID) = some m
    rw [hreg, if_neg fun h => hmn (Option.some.inj h)]
  root := hinv.root

theorem RegInv.tick {t : Int} (hle : w.clock ≤ t) : RegInv cfg { w with clock := t } where
  turns n u hu := by
    have h := hinv.turns n u hu
    exact { h with justified := fun why hwhy => (h.justified why hwhy).later hle (later_refl hle u) }
  registered := hinv.registered
  root := hinv.root

/-- What is allowed keeps the invariant. -/
theorem RegInv.step (hallowed : Allowed cfg w o) (h : Effect cfg w o r w') : RegInv cfg w' := by
  cases h with
  | same => exact hinv
  | tick t hle => exact hinv.tick hle
  | create sid hopen hjoin => exact hinv.create hopen hjoin
  | close r => exact ⟨hinv.turns, nofun, fun _ => rfl⟩
  | rootCancel r => exact ⟨hinv.turns, hinv.registered, fun _ => hallowed⟩
  | remove n r => exact hinv.remove hallowed
  | turn n t t' ht hturn hchange =>
    have htinv := hinv.turns n t ht
    exact hinv.put ht (hchange.later htinv) (hchange.inv htinv (proper_of_allowed hallowed ht hturn))

/-- A second function is started only beside one whose turn was torn down. -/
theorem OneEach.step (hone : OneEach w) (hok : EndedFirst i w o r)
    (h : Effect cfg w o r w') : OneEach w' := by
  cases h with
  | same | tick _ _ | close _ | rootCancel _ | remove _ _ => exact hone
  | create sid hopen hjoin =>
    have hold : ∀ {m : Nat} {u : Turn}, w.turns[m]? = some u → u.sessionID = sid →
        u.phase = .returned := by
      intro m u hu hsid
      by_contra hphase
      exact hphase (hok u (List.mem_of_getElem? hu) hsid
        (reaped_of_fresh hinv hopen hjoin hu hsid hphase))
    intro n m t t' ht ht' hsid hphase hphase'
    rcases turn_of_create ht with ht | ⟨rfl, rfl⟩ <;> rcases turn_of_create ht' with ht' | ⟨rfl, rfl⟩
    · exact hone n m t t' ht ht' hsid hphase hphase'
    · exact absurd (hold ht hsid) hphase
    · exact absurd (hold ht' hsid.symm) hphase'
    · rfl
  | turn n t t' ht hturn hchange =>
    have hlater := hchange.later (hinv.turns n t ht)
    have hold : ∀ {m : Nat} {u : Turn}, (w.put n t').turns[m]? = some u → u.phase ≠ .returned →
        ∃ u₀, w.turns[m]? = some u₀ ∧ u₀.sessionID = u.sessionID ∧ u₀.phase ≠ .returned := by
      intro m u hu hphase
      rcases turn_of_put hu with ⟨rfl, rfl⟩ | ⟨-, hu⟩
      · exact ⟨t, ht, hlater.sessionID.symm, hlater.before.2 hphase⟩
      · exact ⟨u, hu, rfl, hphase⟩
    intro m m' u u' hu hu' hsid hphase hphase'
    obtain ⟨u₀, hu₀, hsid₀, hphase₀⟩ := hold hu hphase
    obtain ⟨u₁, hu₁, hsid₁, hphase₁⟩ := hold hu' hphase'
    exact hone m m' u₀ u₁ hu₀ hu₁ (hsid₀.trans (hsid.trans hsid₁.symm)) hphase₀ hphase₁

variable (cfg ι) in
/-- The steps considered are those that meet `ok`. -/
def turnContract (ok : Lib.StepCond ι World Op Op.Res) : Contract ι World Op Op.Res where
  sem := sem cfg
  ok := ok
  inv w := RegInv cfg w ∧ ((∀ i w o r, ok i w o r → EndedFirst i w o r) → OneEach w)
  guar _ := Allowed cfg

omit hinv

variable (cfg) in
/-- No step of any thread destroys `F`. -/
abbrev Lasting (ok : Lib.StepCond ι World Op Op.Res) (F : World → Prop) : Prop :=
  (turnContract cfg ι ok).Persistent F

theorem turnContract_preserved : (turnContract cfg ι ok).Preserved := by
  intro i w o r w' hm
  obtain ⟨⟨hinv, hone⟩, hallowed, hok, hsem⟩ := hm
  have heffect : Effect cfg w o r w' := effect_of_sem hsem
  exact ⟨hinv.step hallowed heffect, fun hall => (hone hall).step hinv (hall i w o r hok) heffect⟩

/-! ### Facts that last -/

theorem clock_of_effect (h : Effect cfg w o r w') : w.clock ≤ w'.clock := by
  cases h with
  | tick t hle => exact hle
  | _ => exact Int.le_refl _

/-- No turn is lost. -/
theorem later_of_effect (hinv : RegInv cfg w) (h : Effect cfg w o r w')
    (ht : w.turns[n]? = some t) :
    ∃ t', w'.turns[n]? = some t' ∧ Later cfg w.clock w'.clock t t' := by
  have hsame : ∀ t : Turn, Later cfg w.clock w.clock t t := later_refl (Int.le_refl _)
  cases h with
  | same | close _ | rootCancel _ | remove _ _ => exact ⟨t, ht, hsame t⟩
  | tick u hle => exact ⟨t, ht, later_refl hle t⟩
  | create sid hopen hjoin =>
    have hlt : n < w.turns.length := (List.getElem?_eq_some_iff.mp ht).1
    exact ⟨t, (List.getElem?_append_left hlt).trans ht, hsame t⟩
  | turn m u u' hu hturn hchange =>
    by_cases hmn : m = n
    · subst hmn
      rw [hu] at ht
      cases ht
      exact ⟨u', put_self hu, hchange.later (hinv.turns m t hu)⟩
    · exact ⟨t, (List.getElem?_set_ne hmn).trans ht, hsame t⟩

theorem persistent_fact (n : Nat) {P : Int → Turn → Prop}
    (hP : ∀ {clock clock' : Int} {t t' : Turn}, clock ≤ clock' → Later cfg clock clock' t t' →
      P clock t → P clock' t') : Lasting cfg ok (Fact n P) := by
  intro i w o r w' hm h
  obtain ⟨t, ht, h⟩ := h
  have heffect : Effect cfg w o r w' := effect_of_sem hm.2.2.2
  obtain ⟨t', ht', hlater⟩ := later_of_effect hm.1.1 heffect ht
  exact ⟨t', ht', hP (clock_of_effect heffect) hlater h⟩

theorem persistent_reaped (n : Nat) : Lasting cfg ok (Fact n Reaped) := by
  refine persistent_fact n fun _ hlater h hnone => ?_
  exact h (hlater.before.1 hnone)

theorem persistent_returned (n : Nat) : Lasting cfg ok (Fact n Returned) :=
  persistent_fact n fun _ hlater h => hlater.returned h

theorem persistent_because (n : Nat) (why : Why) : Lasting cfg ok fun w => Because cfg n w why := by
  have hjustified : Lasting cfg ok (Fact n (Justified cfg · · why)) :=
    persistent_fact n fun hle hlater h => Justified.later hle hlater h
  cases why with
  | cancel | close => exact fun _ _ _ _ _ _ _ => trivial
  | grace | finished | deadline => exact hjustified

theorem persistent_clock (now : Int) : Lasting cfg ok fun w => now ≤ w.clock := by
  intro i w o r w' hm h
  have heffect : Effect cfg w o r w' := effect_of_sem hm.2.2.2
  exact Int.le_trans h (clock_of_effect heffect)

theorem persistent_closed : Lasting cfg ok fun w => w.closed = true := by
  intro i w o r w' hm h
  have heffect : Effect cfg w o r w' := effect_of_sem hm.2.2.2
  cases heffect with
  | close r => rfl
  | _ => exact h

end Contract

/-! ## 4. The programs keep to it -/

variable {n : Nat} {w : World}

section Programs

variable {ι : Type} {i : ι} {ok : Lib.StepCond ι World Op Op.Res}

section Rules

variable {α : Type} {o : Op} {k : o.Res → TurnProg α} {Q : α → World → Prop} {φ : World → Prop}

/-- A step from whose answer something lasting is learned. -/
theorem learned {R : o.Res → World → Prop} (hφ : Lasting cfg ok φ)
    (hR : ∀ r, Lasting cfg ok (R r)) (hallowed : ∀ w, φ w → Allowed cfg w o)
    (hlearn : ∀ w r w', RegInv cfg w → sem cfg i w o r = some w' → R r w')
    (hk : ∀ r, (turnContract cfg ι ok).Outline i (fun w => φ w ∧ R r w) (k r) Q) :
    (turnContract cfg ι ok).Outline i φ (issue o >>= k) Q :=
  Outline.learn _ (fun w _ h => hallowed w h) (fun r => (hφ.and (hR r)).stable i)
    (fun w r w' h hm => ⟨hφ i w o r w' hm h, hlearn w r w' hm.1.1 hm.2.2.2⟩) hk

/-- A step from which nothing is learned. -/
theorem passed (hφ : Lasting cfg ok φ) (hallowed : ∀ w, φ w → Allowed cfg w o)
    (hk : ∀ r, (turnContract cfg ι ok).Outline i φ (k r) Q) :
    (turnContract cfg ι ok).Outline i φ (issue o >>= k) Q :=
  Outline.keep (fun w _ h => hallowed w h) (hφ.stable i) (fun w r w' hm h => hφ i w o r w' hm h) hk

end Rules

variable (cfg ok) in
/-- A program that keeps to the contract, whatever it starts from. -/
abbrev Keeps (i : ι) {α : Type} (p : TurnProg α) : Prop :=
  (turnContract cfg ι ok).Outline i (fun _ => True) p fun _ _ => True

theorem persistent_true : Lasting cfg ok fun _ => True := fun _ _ _ _ _ _ _ => trivial

/-- A program that is over. -/
theorem over_outline {α : Type} {φ : World → Prop} (a : α) :
    (turnContract cfg ι ok).Outline i φ (pure a : TurnProg α) fun _ _ => True :=
  .ret fun _ _ _ => trivial

/-- A step that is always allowed. -/
theorem free_outline {α : Type} {o : Op} {k : o.Res → TurnProg α} (ho : ∀ w, Allowed cfg w o)
    (hk : ∀ r, Keeps cfg ok i (k r)) : Keeps cfg ok i (issue o >>= k) :=
  passed persistent_true (fun w _ => ho w) hk

/-- A turn is torn down for a reason. -/
theorem teardown_outline (n : Nat) (why : Why) :
    (turnContract cfg ι ok).Outline i (fun w => Because cfg n w why) (teardown n why)
      fun _ _ => True := by
  refine learned (R := fun first w => first = true → Fact n Reaped w)
    (persistent_because n why) (fun _ => (persistent_reaped n).imp) (fun _ h => h) ?_
    fun first => ?_
  · intro w first w' _ hsem hfirst
    subst hfirst
    obtain ⟨t, ht, -, rfl⟩ := of_step hsem
    exact ⟨_, put_self ht, Option.some_ne_none why⟩
  · cases first with
    | false => exact over_outline _
    | true =>
      have hreaped : Lasting cfg ok (Fact n Reaped) := persistent_reaped n
      refine .pre (fun w _ h => h.2 rfl) ?_
      refine passed hreaped (fun _ h => .inl h) fun _ => ?_
      refine passed hreaped (fun _ h => h) fun _ => ?_
      exact passed hreaped (fun _ _ => trivial)
        fun _ => over_outline _

variable (quote : String → String)

theorem attach_outline (n : Nat) (sid v : String) : Keeps cfg ok i (attach quote n sid v) := by
  unfold attach
  split
  · exact .done
  refine free_outline (fun _ => trivial) fun r => ?_
  cases r with
  | true | false => exact .done

theorem start_outline (sid v : String) : Keeps cfg ok i (start quote sid v) := by
  refine free_outline (fun _ => trivial) fun r => ?_
  cases r with
  | closed => exact .done
  | join n =>
    refine .bind (fun r => ?_) (attach_outline quote n sid v)
    cases r with
    | error _ | ok _ => exact .done
  | fresh n =>
    refine .bind (fun _ => ?_) (attach_outline quote n sid v)
    exact free_outline (fun _ => trivial) fun _ => .done

theorem attachIfRunning_outline (sid v : String) :
    Keeps cfg ok i (attachIfRunning quote sid v) := by
  refine free_outline (fun _ => trivial) fun r => ?_
  cases r with
  | none => exact .done
  | some n =>
    refine free_outline (fun _ => trivial) fun r => ?_
    cases r with
    | true => exact .done
    | false =>
      refine .bind (fun r => ?_) (attach_outline quote n sid v)
      cases r with
      | error _ | ok _ => exact .done

theorem detach_outline (n : Nat) (v : String) : Keeps cfg ok i (detach n v) := by
  refine learned
    (R := fun r w => r.map Prod.snd = some true → Fact n Returned w)
    persistent_true (fun _ => (persistent_returned n).imp) (fun _ _ => trivial) ?_
    fun r => ?_
  · intro w r w' hinv hsem hr
    obtain ⟨r', hr', hfinished⟩ := Option.map_eq_some_iff.mp hr
    subst hr'
    obtain ⟨t, ht, ⟨hv, hanswer⟩, rfl⟩ := of_step hsem
    have hfinished : t.finished = true := by rw [← hfinished, hanswer]
    have hreturned := (hinv.turns n t ht).finished hfinished
    exact ⟨_, put_self ht, (later_detach (hinv.turns n t ht) hv).returned hreturned⟩
  · cases r with
    | none => exact over_outline _
    | some r =>
      obtain ⟨empty, finished⟩ := r
      refine .ite (fun hboth => ?_) fun _ => over_outline _
      refine (teardown_outline n .finished).pre fun w _ h => h.2 ?_
      rw [(Bool.and_eq_true_iff.mp hboth).2]
      rfl

theorem cancel_outline (sid : String) : Keeps cfg ok i (cancel sid) := by
  refine free_outline (fun _ => trivial) fun r => ?_
  cases r with
  | none => exact .done
  | some n =>
    exact .bind (fun _ => .done) (teardown_outline n .cancel)

theorem run_outline (n : Nat) : Keeps cfg ok i (run n) := by
  refine free_outline (fun _ => trivial) fun _ => ?_
  refine learned persistent_true
    (fun _ => persistent_returned n) (fun _ _ => trivial) ?_ fun res => ?_
  · intro w r w' _ hsem
    obtain ⟨t, ht, -, rfl⟩ := of_step hsem
    exact ⟨_, put_self ht, rfl⟩
  · have hreturned : Lasting cfg ok (Fact n Returned) := persistent_returned n
    refine .pre (fun _ _ h => h.2)
      (passed hreturned (fun _ h => h) fun r => ?_)
    cases r with
    | none => exact over_outline _
    | some viewers =>
      refine passed hreturned (fun _ h => .inr h) fun _ => ?_
      exact .ite (fun _ => teardown_outline n .finished) fun _ => over_outline _

/-- A timer that fires is due, and nobody has come since it was set. -/
theorem timer_outline (n : Nat) : Keeps cfg ok i (timer n) := by
  refine learned persistent_true
    (fun _ => persistent_because n .grace) (fun _ _ => trivial) ?_ fun _ => ?_
  · intro w r w' hinv hsem
    obtain ⟨t, ht, hdue, rfl⟩ := of_step hsem
    cases htimer : t.graceTimer with
    | none =>
      rw [htimer] at hdue
      cases hdue
    | some due =>
      rw [htimer] at hdue
      have hle : due ≤ w.clock := of_decide_eq_true hdue
      obtain ⟨since, hs, rfl⟩ := (hinv.turns n t ht).graceTimer due htimer
      exact ⟨_, put_self ht, .inr ⟨since, hs, hle⟩⟩
  · exact (teardown_outline n .grace).pre fun _ _ h => h.2

/-- What the reaper saw of a turn is a reason, however long ago it was. -/
theorem because_of_snapshot (hwindow : 0 ≤ cfg.graceWindow) (hinv : RegInv cfg w)
    (ht : w.turns[n]? = some t) {now : Int} (hnow : now ≤ w.clock)
    (hreap : t.snapshot.reap cfg now = some why) : Because cfg n w why := by
  have htinv := hinv.turns n t ht
  unfold Snapshot.reap at hreap
  split at hreap
  · next hfinished =>
    cases hreap
    exact ⟨t, ht, htinv.finished hfinished.1⟩
  · split at hreap
    · next hvacant =>
      cases hreap
      have hdeadline : (t.graceDeadline.any fun d => d < now) = true := hvacant.2.2
      cases hgrace : t.graceDeadline with
      | none =>
        rw [hgrace] at hdeadline
        cases hdeadline
      | some d =>
        rw [hgrace] at hdeadline
        have hlt : d < now := of_decide_eq_true hdeadline
        obtain ⟨since, hs, rfl⟩ := htinv.graceDeadline d hgrace
        exact ⟨t, ht, .inr ⟨since, hs, by omega⟩⟩
    · split at hreap
      · next hlate =>
        cases hreap
        have hlate : t.deadline + cfg.graceWindow < now := hlate
        exact ⟨t, ht, show t.deadline ≤ w.clock by omega⟩
      · cases hreap

/-- Only turns nobody has watched for the grace window are reaped. -/
theorem reapEach_outline (hwindow : 0 ≤ cfg.graceWindow) (now : Int) (live : List Nat) :
    (turnContract cfg ι ok).Outline i (fun w => now ≤ w.clock) (reapEach cfg now live)
      fun _ _ => True := by
  induction live with
  | nil => exact over_outline _
  | cons n rest ih =>
    have hclock : Lasting cfg ok fun w => now ≤ w.clock := persistent_clock now
    refine .op (fun _ _ _ => trivial) fun s => ?_
    change ∃ ψ, _ ∧ _ ∧ (turnContract cfg ι ok).Outline i ψ
      (reap n (s.reap cfg now) >>= fun _ => reapEach cfg now rest) _
    cases hreap : s.reap cfg now with
    | none => exact ⟨_, hclock.stable i, fun w w' h hm => hclock i w (.snapshot n) s w' hm h, ih⟩
    | some why =>
      refine ⟨_, ((persistent_because n why).and hclock).stable i, fun w w' hnow hm => ?_, ?_⟩
      · obtain ⟨t, ht, rfl, rfl⟩ := of_step hm.2.2.2
        have hinv : RegInv cfg w := hm.1.1
        have hinv' : RegInv cfg (w.put n t) :=
          hinv.put ht (later_refl (Int.le_refl _) t) (hinv.turns n t ht)
        exact ⟨because_of_snapshot hwindow hinv' (put_self ht) hnow hreap, hnow⟩
      · exact .bind (fun _ => ih.pre fun _ _ h => h.2) ((teardown_outline n why).frame hclock)

theorem reapIdle_outline (hwindow : 0 ≤ cfg.graceWindow) : Keeps cfg ok i (reapIdle cfg) := by
  refine free_outline (fun _ => trivial) fun live => ?_
  refine learned persistent_true
    (fun now => persistent_clock now) (fun _ _ => trivial) ?_ fun now => ?_
  · intro w now w' _ hsem
    obtain ⟨rfl, rfl⟩ := of_guard hsem
    exact Int.le_refl _
  · exact (reapEach_outline hwindow now live).pre fun _ _ h => h.2

theorem close_outline :
    Keeps cfg ok i close := by
  have hclosed : Lasting cfg ok fun w => w.closed = true := persistent_closed
  have heach : ∀ live, (turnContract cfg ι ok).Outline i (fun w => w.closed = true)
      (teardownEach live) fun _ w => w.closed = true := by
    intro live
    induction live with
    | nil => exact .done
    | cons n rest ih =>
      refine .bind (fun _ => ?_) (Outline.pre (fun w _ h => ⟨trivial, h⟩)
        ((teardown_outline n .close).frame hclosed))
      exact ih.pre fun _ _ h => h.2
  refine learned (R := fun r w => r ≠ none → w.closed = true)
    persistent_true (fun _ => hclosed.imp) (fun _ _ => trivial) ?_ fun r => ?_
  · intro w r w' _ hsem hr
    cases r with
    | none => exact absurd rfl hr
    | some live =>
      obtain ⟨-, rfl⟩ := of_guard hsem
      rfl
  · cases r with
    | none => exact over_outline _
    | some live =>
      refine .bind (fun _ => ?_) ((heach live).pre fun w _ h => h.2 (Option.some_ne_none live))
      exact passed hclosed (fun _ h => h) fun _ => over_outline _

theorem action_outline (quote : String → String) (hwindow : 0 ≤ cfg.graceWindow) (a : Action) :
    Keeps cfg ok i (a.prog quote cfg) := by
  cases a with
  | start sid v =>
    exact .bind (fun _ => .done) (start_outline quote sid v)
  | attachIfRunning sid v =>
    exact .bind (fun _ => .done) (attachIfRunning_outline quote sid v)
  | detach n v => exact detach_outline n v
  | cancel sid =>
    exact .bind (fun _ => .done) (cancel_outline sid)
  | cancelTurn n => exact teardown_outline n .cancel
  | reapIdle => exact reapIdle_outline hwindow
  | close => exact close_outline
  | run n => exact run_outline n
  | timer n => exact timer_outline n
  | tick => exact free_outline (fun _ => trivial) fun _ => .done

theorem thread_outline (quote : String → String) (hwindow : 0 ≤ cfg.graceWindow) :
    ∀ actions : List Action, Keeps cfg ok i (thread quote cfg actions)
  | [] => .done
  | a :: rest =>
    Outline.bind (fun _ => thread_outline quote hwindow rest) (action_outline quote hwindow a)

end Programs

/-! ## 5. Every run -/

section

variable {ι : Type}

/-- `New`. -/
def World.new (now : Int) : World where
  clock := now
  closed := false
  rootCancelled := false
  sessions _ := none
  turns := []

/-- The context of a turn is done. -/
def CtxDone (w : World) (t : Turn) : Prop :=
  t.cancelled = true ∨ w.rootCancelled = true ∨ t.deadline ≤ w.clock

/-- What may end a turn that is running: `Cancel`, `Close`, its deadline, or a whole grace window without
a viewer. -/
def Ended (cfg : Config) (w : World) (t : Turn) : Prop :=
  t.reaping = some .cancel ∨ w.closed = true ∨ t.reaping = some .close ∨ t.deadline ≤ w.clock ∨
    (t.reaping = some .grace ∧ LongVacant cfg w.clock t)

/-- A running turn whose context is done has ended. -/
theorem ended_of_done (hinv : RegInv cfg w) (ht : w.turns[n]? = some t)
    (hrunning : t.phase = .running) (hdone : CtxDone w t) : Ended cfg w t := by
  have htinv := hinv.turns n t ht
  rcases hdone with hcancelled | hroot | hdeadline
  · rcases htinv.cancelled hcancelled with hreturned | hreaped
    · rw [hrunning] at hreturned
      cases hreturned
    obtain ⟨why, hwhy⟩ := Option.ne_none_iff_exists'.mp hreaped
    have hjustified := htinv.justified why hwhy
    cases why with
    | cancel => exact .inl hwhy
    | close => exact .inr (.inr (.inl hwhy))
    | grace => exact .inr (.inr (.inr (.inr ⟨hwhy, hjustified⟩)))
    | finished =>
      have hreturned : t.phase = .returned := hjustified
      rw [hrunning] at hreturned
      cases hreturned
    | deadline => exact .inr (.inr (.inr (.inl hjustified)))
  · exact .inr (.inl (hinv.root hroot))
  · exact .inr (.inr (.inr (.inl hdeadline)))

theorem floor_window (cfg : Config) : 0 ≤ cfg.floor.graceWindow := by
  unfold Config.floor minute
  dsimp only
  split <;> omega

variable [DecidableEq ι]

/-- **The invariant holds in every reachable state.** -/
theorem reach_inv (quote : String → String) (cfg : Config) (actions : ι → List Action) (now : Int)
    {ok : Lib.StepCond ι World Op Op.Res} {c : Lib.Config ι World Op Op.Res Unit}
    (hr : Reach (sem cfg.floor) ok ⟨World.new now, fun i => thread quote cfg.floor (actions i)⟩ c) :
    RegInv cfg.floor c.store ∧
      ((∀ i w o r, ok i w o r → EndedFirst i w o r) → OneEach c.store) := by
  have hnone : ∀ (n : Nat) (t : Turn), (World.new now).turns[n]? ≠ some t := by
    intro n t ht
    cases ht
  have hnew : (turnContract cfg.floor ι ok).inv (World.new now) := by
    refine ⟨⟨fun n t ht => ?_, fun _ n t ht => ?_, nofun⟩, fun _ n m t t' ht => ?_⟩
    iterate 3 exact absurd ht (hnone n t)
  exact (Contract.reach_outline turnContract_preserved hnew (fun _ => persistent_true.stable _)
    (fun _ => trivial) (fun i => thread_outline quote (floor_window cfg) (actions i)) hr).1

/-- **How turns end, and that there is one of a session.**  In every run, the context of a turn whose
function is running is done only for one of the reasons, and the times without a viewer are as the
viewers have it; and in every run in which a session is started again only when the functions of its
torn-down turns have returned, no two functions of a session are running. -/
theorem turn_lifetimes (quote : String → String) (cfg : Config) (actions : ι → List Action) (now : Int) :
    (∀ c, Reach (sem cfg.floor) anyStep
        ⟨World.new now, fun i => thread quote cfg.floor (actions i)⟩ c →
      ∀ (n : Nat) (t : Turn), c.store.turns[n]? = some t → t.phase = .running →
        (t.vacantSince = none ↔ t.viewers ≠ []) ∧
        (CtxDone c.store t → Ended cfg.floor c.store t)) ∧
    (∀ c, Reach (sem cfg.floor) EndedFirst
        ⟨World.new now, fun i => thread quote cfg.floor (actions i)⟩ c →
      ∀ (n m : Nat) (t t' : Turn), c.store.turns[n]? = some t → c.store.turns[m]? = some t' →
        t.sessionID = t'.sessionID → t.phase = .running → t'.phase = .running → n = m) := by
  refine ⟨fun c hr n t ht hrunning => ?_, fun c hr n m t t' ht ht' hsid hrunning hrunning' => ?_⟩
  · obtain ⟨hinv, -⟩ := reach_inv quote cfg actions now hr
    exact ⟨(hinv.turns n t ht).watched, ended_of_done hinv ht hrunning⟩
  · have hone := (reach_inv quote cfg actions now hr).2 fun _ _ _ _ h => h
    exact hone n m t t' ht ht' hsid (hrunning ▸ nofun) (hrunning' ▸ nofun)

end

/-- A client starts a turn, cancels it and starts the next; two goroutines run them. -/
def restart : Nat → List Action
  | 0 => [.start "s" "a", .cancel "s", .start "s" "b"]
  | 1 => [.run 0]
  | 2 => [.run 1]
  | _ => []

def anyTurns : Config := ⟨0, 0⟩

/-- The second function begins while the first, which was cancelled, has not returned. -/
theorem restarted_beside_running : ∃ c,
    Reach (sem anyTurns.floor) anyStep
      ⟨World.new 0, fun i : Nat => thread id anyTurns.floor (restart i)⟩ c ∧
    ∃ t t', c.store.turns[0]? = some t ∧ c.store.turns[1]? = some t' ∧
      t.sessionID = t'.sessionID ∧ t.phase = .running ∧ t'.phase = .running := by
  have run := (Reach.start : Reach (sem anyTurns.floor) anyStep
      ⟨World.new 0, fun i : Nat => thread id anyTurns.floor (restart i)⟩ _)
    |>.step 0 (.start "s") (.fresh 0)
    |>.step 0 (.attach 0 "a") true
    |>.step 0 (.launch 0) ()
    |>.step 1 (.begins 0) ()
    |>.step 0 (.lookup "s") (some 0)
    |>.step 0 (.compareAndSwap 0 .cancel) true
    |>.step 0 (.cancel 0) ()
    |>.step 0 (.removeSession 0) ()
    |>.step 0 (.stopTimer 0) ()
    |>.step 0 (.start "s") (.fresh 1)
    |>.step 0 (.attach 1 "b") true
    |>.step 0 (.launch 1) ()
    |>.step 2 (.begins 1) ()
  exact ⟨_, run, _, _, rfl, rfl, rfl, rfl, rfl⟩

/-- A turn is cancelled while it is running; the next one of the session is started when its
function has returned, and runs alone. -/
theorem turn_lifetimes_cancelled : ∃ c c' t t',
    Reach (sem anyTurns.floor) EndedFirst
      ⟨World.new 0, fun i : Nat => thread id anyTurns.floor (restart i)⟩ c ∧
    c.store.turns[0]? = some t ∧ t.phase = .running ∧ CtxDone c.store t ∧
      Ended anyTurns.floor c.store t ∧
    Reach (sem anyTurns.floor) EndedFirst
      ⟨World.new 0, fun i : Nat => thread id anyTurns.floor (restart i)⟩ c' ∧
    c'.store.turns[1]? = some t' ∧ t'.phase = .running ∧
      ∀ m t'', c'.store.turns[m]? = some t'' → t'.sessionID = t''.sessionID →
        t''.phase = .running → 1 = m := by
  have run := (Reach.start : Reach (sem anyTurns.floor) EndedFirst
      ⟨World.new 0, fun i : Nat => thread id anyTurns.floor (restart i)⟩ _)
    |>.step 0 (.start "s") (.fresh 0) rfl (fun _ h => by cases h)
    |>.step 0 (.attach 0 "a") true
    |>.step 0 (.launch 0) ()
    |>.step 1 (.begins 0) ()
    |>.step 0 (.lookup "s") (some 0)
    |>.step 0 (.compareAndSwap 0 .cancel) true
    |>.step 0 (.cancel 0) ()
  have next := run
    |>.step 0 (.removeSession 0) ()
    |>.step 0 (.stopTimer 0) ()
    |>.step 1 (.returns 0) (⟨some "context canceled", false⟩ : Result)
    |>.step 0 (.start "s") (.fresh 1) rfl (fun _ h _ _ => by cases List.mem_singleton.mp h; rfl)
    |>.step 0 (.attach 1 "b") true
    |>.step 0 (.launch 1) ()
    |>.step 2 (.begins 1) ()
  have hlifetimes := turn_lifetimes id anyTurns restart 0
  refine ⟨_, _, _, _, run, rfl, rfl, .inl rfl, ?_, next, rfl, rfl, fun m t' ht' hsid hrunning => ?_⟩
  · exact (hlifetimes.1 _ run.anyStep 0 _ rfl rfl).2 (.inl rfl)
  · exact hlifetimes.2 _ next 1 m _ t' rfl ht' hsid rfl hrunning

end Contenox.NativeTurn
