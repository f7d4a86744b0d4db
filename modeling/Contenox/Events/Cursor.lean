/-
# What the cursor has passed

A dispatcher handles the events of a page one after the other and moves its cursor behind each of
them.  What it leaves behind should have been fired: there is a row for every trigger that matches,
and the row carries an outcome or belongs to a host that is at work on it.

Four things break this, and the code lets each of them pass.  A claim that cannot be written is
reported, and the cursor moves on without a row (`cursor_passes_unfired`).  An outcome that cannot be
written leaves a row that says `running` and that nobody is running.  So does a host that dies while it
runs a chain: others find the claim, move their cursors past it, and nobody comes back when it is
stale.  And a page may have a gap, as in `Consumer`.  `NothingLost` rules these out; in every run
that meets it, whatever stands behind a cursor is accounted for (`cursor_accounts_for_log`).
-/
import Contenox.Events.Claims
import Contenox.Events.Consumer

namespace Contenox.Events

open Lib
open Lib.Contract (Outline)

variable {ι : Type} {w : World ι} {i : ι}

/-! ## 1. The contract -/

section

/-- The condition: appends are careful, a row cannot be written only if it is there, an outcome is
written even if that is reported as failed, and a host dies only between firings. -/
def NothingLost : Lib.StepCond ι (World ι) (Op ι) Op.Res
  | i, w, .insertEvent period ev, r => CarefulAppend i w (.insertEvent period ev) r
  | _, w, .insertFiring key _ _, .failed _ _ => Recorded key w
  | _, _, .finishFiring _ _ _ _, .failed _ carriedOut => carriedOut = true
  | _, w, .crash host, _ => w.holds host = none
  | _, _, _, _ => True

/-- A host that is alive is at work on the firing. -/
def Attended (key : FiringKey) (w : World ι) : Prop :=
  ∃ i c, w.dead i = false ∧ w.holds i = some c ∧ c.key = key

/-- Everything in the log up to a number has a row for each of the triggers it matches. -/
structure Through (ws : String) (triggers : List Trigger) (n : Int) (w : World ι) : Prop where
  reached : n ≤ w.lastNID
  fired : ∀ ev ∈ w.log ws, ev.nid ≤ n → ∀ t ∈ triggers, matchesType t.listenFor ev.type = true →
    Recorded ⟨ws, t.name, ev.nid⟩ w

variable (triggersOf : String → String → List Trigger)

structure CursorInv (w : World ι) : Prop where
  log : LogInv w
  attended : ∀ key f, w.firing key = some f → f.status = .running → Attended key w
  cursors : ∀ consumer ws n, w.cursors.lookup (consumer, ws) = some n →
    Through ws (triggersOf ws consumer) n w

/-- What a host keeps to: it is orderly, moves a cursor only over what has rows, and resets
nothing. -/
def Accounts (i : ι) (w : World ι) : Op ι → Prop
  | .setCursor consumer ws n => Through ws (triggersOf ws consumer) n w
  | .resetFiring _ _ _ => False
  | o => Orderly i w o

variable {triggersOf} {w' : World ι} {key : FiringKey}

/-- Whoever was at work on the firing still is. -/
theorem Attended.keep (h : Attended key w)
    (hkeep : ∀ j c, w.dead j = false → w.holds j = some c → c.key = key →
      w'.dead j = false ∧ w'.holds j = some c) :
    Attended key w' := by
  obtain ⟨j, c, halive, hc, hkey⟩ := h
  obtain ⟨halive', hc'⟩ := hkeep j c halive hc hkey
  exact ⟨j, c, halive', hc', hkey⟩

theorem putFiring_of_recorded {k : FiringKey} (h : Recorded k w) (requestID : String) (now : Int) :
    w.putFiring k requestID now = w := by
  obtain ⟨g, hg⟩ := h
  unfold World.putFiring
  split
  · next hins =>
    have hfree : w.firing k = none := (Table.insert_eq_some hins).1
    rw [hg] at hfree
    cases hfree
  · rfl

theorem status_of_takeOver {k : FiringKey} {requestID : String} {now : Int} {f : Firing}
    (h : (w.takeOver k requestID now).firing key = some f) :
    ∃ g, w.firing key = some g ∧ g.status = f.status := by
  have h := (firing_update k key fun _ => by rfl).symm.trans h
  split at h
  · next hk =>
    obtain ⟨g, hg, rfl⟩ := Option.map_eq_some_iff.mp h
    exact ⟨g, hk ▸ hg, rfl⟩
  · exact ⟨f, h, rfl⟩

variable [DecidableEq ι]

/-- Whoever was at work still is when a host that was not changes its claim. -/
theorem Attended.setClaim (h : Attended key w) {c' : Option Claim}
    (hother : ∀ c, w.holds i = some c → c.key ≠ key) : Attended key (w.setClaim i c') := by
  refine h.keep fun j c halive hc hkey => ⟨halive, ?_⟩
  have hj : j ≠ i := by
    rintro rfl
    exact hother c hc hkey
  exact (Function.update_of_ne hj _ _).trans hc

variable {o : Op ι} {r : o.Res}

theorem Through.step {j : ι} {ws : String} {triggers : List Trigger} {n : Int}
    (hsem : sem j w o r = some w') (h : Through ws triggers n w) : Through ws triggers n w' := by
  have hreached := h.reached
  cases logStep_of_sem hsem with
  | quiet rows last periods listing dead =>
    refine ⟨last ▸ hreached, fun ev hev hle t ht hmatch => ?_⟩
    rw [log_eq_of_rows rows] at hev
    exact recorded_step hsem (h.fired ev hev hle t ht hmatch)
  | append period ev hp =>
    refine ⟨by change n ≤ w.lastNID + 1; omega, fun e he hle t ht hmatch => ?_⟩
    rcases (log_append period ev).mp he with he | ⟨-, rfl⟩
    · exact recorded_step hsem (h.fired e he hle t ht hmatch)
    · change w.lastNID + 1 ≤ n at hle
      omega

/-- Every running row is still attended. -/
theorem attended_step (hguar : Accounts triggersOf i w o) (hok : NothingLost i w o r)
    (hsem : sem i w o r = some w')
    (hatt : ∀ key f, w.firing key = some f → f.status = .running → Attended key w) {f : Firing}
    (hf : w'.firing key = some f) (hrunning : f.status = .running) : Attended key w' := by
  have halive : w.dead i = false := alive_of_sem hsem
  cases effect_of_sem hsem with
  | nothing | now _ | mint _ | append _ _ _ | listing _ _ _ | cursor _ _ _ _ =>
    exact hatt key f hf hrunning
  | register period r =>
    unfold World.register at hf ⊢
    by_cases h : period ∈ w.partitions
    · rw [if_pos h] at hf ⊢
      exact hatt key f hf hrunning
    · rw [if_neg h] at hf ⊢
      exact hatt key f hf hrunning
  | crash host r =>
    have hidle : w.holds host = none := hok
    refine (hatt key f hf hrunning).keep fun j c hj hc _ => ?_
    have hne : j ≠ host := by
      rintro rfl
      rw [hidle] at hc
      cases hc
    exact ⟨(Function.update_of_ne hne _ _).trans hj, (Function.update_of_ne hne _ _).trans hc⟩
  | claimUntold k requestID now e =>
    rw [putFiring_of_recorded hok] at hf ⊢
    exact hatt key f hf hrunning
  | @claim k requestID now hfree =>
    have hidle : w.holds i = none := hguar.2.2 halive
    obtain ⟨firings, hput⟩ := putFiring_eq k requestID now
    by_cases hk : key = k
    · rw [hput]
      exact ⟨i, _, halive, Function.update_self _ _ _, hk.symm⟩
    have hrow : w.firing key = some f := by
      change (w.putFiring k requestID now).firing key = some f at hf
      rwa [firing_putFiring, if_neg fun h => hk h.1] at hf
    rw [hput]
    refine Attended.setClaim (hatt key f hrow hrunning) ?_
    rw [hidle]
    exact nofun
  | @takeOver k requestID now before hstale =>
    have hidle : w.holds i = none := hguar.2.2.2 halive
    by_cases hk : key = k
    · exact ⟨i, _, halive, Function.update_self _ _ _, hk.symm⟩
    obtain ⟨g, hg, hstatus⟩ := status_of_takeOver hf
    refine Attended.setClaim (hatt key g hg (hstatus.trans hrunning)) ?_
    rw [hidle]
    exact nofun
  | @takeOverUntold k requestID now before e hstale =>
    obtain ⟨g, hg, hstatus⟩ := status_of_takeOver hf
    exact hatt key g hg (hstatus.trans hrunning)
  | settle k status err now r =>
    obtain ⟨hsettled, hholds⟩ := hguar
    obtain ⟨c, hc, hkey⟩ := hholds halive
    have hf' := (firing_update k key fun _ => by rfl).symm.trans hf
    split at hf'
    · obtain ⟨g, -, rfl⟩ := Option.map_eq_some_iff.mp hf'
      exact absurd hrunning hsettled
    next hne =>
    refine Attended.setClaim (hatt key f hf' hrunning) fun d hd => ?_
    rw [hc] at hd
    cases hd
    rw [hkey]
    exact Ne.symm hne
  | giveUp k status err now e => cases hok
  | reset updatedAt r hready => exact hguar.elim

variable (ι) in
def cursorContract (triggersOf : String → String → List Trigger) :
    Contract ι (World ι) (Op ι) Op.Res where
  sem := sem
  ok := NothingLost
  inv := CursorInv triggersOf
  guar := Accounts triggersOf

theorem cursorContract_preserved : (cursorContract ι triggersOf).Preserved := by
  intro i w o r w' hm
  obtain ⟨hinv, hguar, hok, hsem⟩ := hm
  refine ⟨hinv.log.step (logStep_of_sem hsem),
    fun key f hf hrunning => attended_step hguar hok hsem hinv.attended hf hrunning, ?_⟩
  intro consumer ws n hlookup
  have hold : w.cursors.lookup (consumer, ws) = some n → Through ws (triggersOf ws consumer) n w' :=
    fun h => (hinv.cursors consumer ws n h).step hsem
  cases effect_of_sem hsem with
  | cursor consumer' ws' n' r =>
    change List.lookup _ (_ :: w.cursors.filter fun e => e.1 ≠ (consumer', ws')) = some n at hlookup
    rw [Assoc.lookup_cons_filter] at hlookup
    split at hlookup
    · next hsame =>
      cases hsame
      cases hlookup
      have hthrough : Through ws (triggersOf ws consumer) n w := hguar
      exact hthrough.step hsem
    · exact hold hlookup
  | register period r =>
    unfold World.register at hlookup
    split at hlookup <;> exact hold hlookup
  | @claim key requestID now hfree | claimUntold key requestID now e =>
    obtain ⟨firings, hput⟩ := putFiring_eq key requestID now
    rw [hput] at hlookup
    exact hold hlookup
  | nothing | now _ | mint _ | crash _ _ | append _ _ _ | listing _ _ _ | takeOver _ _ _
    | takeOverUntold _ _ _ _ | settle _ _ _ _ _ | giveUp _ _ _ _ _ | reset _ _ _ =>
    exact hold hlookup

theorem cursorContract_fires (i : ι) : Fires (cursorContract ι triggersOf) i True where
  sem := rfl
  guar w o hplain h := by
    cases o <;> first | exact h | exact hplain.elim
  told _ _ _ _ _ _ _ h := h

theorem cursorContract_lists (i : ι) : Lists (cursorContract ι triggersOf) i where
  sem := rfl
  careful j w o r h := by
    cases o <;> first | exact h | trivial
  log _ h := h.log
  listPartitions _ _ _ := trivial
  maxNID _ _ := trivial
  selectEvents _ _ _ _ _ := trivial

end

/-! ## 2. The dispatcher -/

section

variable {ws : String} {triggers : List Trigger} {after reached : Int} {limit : Nat} {ev : Event}
  {rest : List Event}

theorem lastNIDOf_cons (after : Int) (ev : Event) (rest : List Event) :
    lastNIDOf after (ev :: rest) = lastNIDOf ev.nid rest := by
  unfold lastNIDOf
  rw [List.getLast?_cons]
  cases rest.getLast? with
  | none | some _ => rfl

/-- What is left of a page behind its first event. -/
theorem Page.tail (h : Page ⟨ws, after, limit, reached⟩ (ev :: rest) w) :
    Page ⟨ws, ev.nid, 0, reached⟩ rest w := by
  obtain ⟨hfirst, hrest⟩ := List.pairwise_cons.mp h.increasing
  have hafter : after < ev.nid := (h.fromLog ev List.mem_cons_self).2
  refine ⟨h.started, hrest, ?_, ?_, fun _ _ _ _ => .inr (Nat.zero_le _)⟩
  · intro e he
    exact ⟨(h.fromLog e (List.mem_cons_of_mem _ he)).1, hfirst e he⟩
  intro e he hlt hle
  have hmem : e ∈ ev :: rest := by
    refine h.complete e he (hafter.trans hlt) ?_
    rw [lastNIDOf_cons]
    exact hle
  rcases List.mem_cons.mp hmem with rfl | hmem
  · exact absurd hlt (lt_irrefl _)
  · exact hmem

theorem through_zero (hinv : LogInv w) : Through ws triggers 0 w := by
  refine ⟨hinv.nonneg, fun ev hev hle => ?_⟩
  obtain ⟨period, hrow, -⟩ := mem_log.mp hev
  have hpositive : 0 < ev.nid := hinv.positive _ hrow
  omega

/-- The cursor may move behind the first event of a page once it has been fired. -/
theorem Through.next (hinv : LogInv w) (h : Through ws triggers after w)
    (hpage : Page ⟨ws, after, limit, reached⟩ (ev :: rest) w)
    (hfired : ∀ t ∈ triggers, matchesType t.listenFor ev.type = true →
      Recorded ⟨ws, t.name, ev.nid⟩ w) : Through ws triggers ev.nid w := by
  obtain ⟨hlog, hafter⟩ := hpage.fromLog ev List.mem_cons_self
  obtain ⟨period, hrow, -⟩ := mem_log.mp hlog
  obtain ⟨hfirst, -⟩ := List.pairwise_cons.mp hpage.increasing
  refine ⟨hinv.bounded _ hrow, fun e he hle t ht hmatch => ?_⟩
  by_cases hold : e.nid ≤ after
  · exact h.fired e he hold t ht hmatch
  -- between the old place and the new one there is only the event itself
  have hmem : e ∈ ev :: rest := hpage.complete e he (lt_of_not_ge hold)
    (hle.trans ((le_lastNIDOf hpage).2 ev List.mem_cons_self))
  rcases List.mem_cons.mp hmem with rfl | hmem
  · exact hfired t ht hmatch
  · exact absurd (hfirst e hmem) (not_lt_of_ge hle)

variable [DecidableEq ι] {triggersOf : String → String → List Trigger}

theorem persistent_through (n : Int) :
    (cursorContract ι triggersOf).Persistent (Through ws triggers n) :=
  fun _ _ _ _ _ hm h => h.step hm.2.2.2

/-- A statement beside the firings, with something known that nobody destroys. -/
theorem outline_beside {F : World ι → Prop} (hF : (cursorContract ι triggersOf).Persistent F)
    (o : Op ι) (ho : Aside o) (hguar : ∀ w, F w → Accounts triggersOf i w o) {α : Type}
    {k : o.Res → EventProg ι α} {Q : α → World ι → Prop}
    (hk : ∀ r, (cursorContract ι triggersOf).Outline i (fun w => Free i w ∧ F w) (k r) Q) :
    (cursorContract ι triggersOf).Outline i (fun w => Free i w ∧ F w) (issue o >>= k) Q := by
  refine .keep (fun w _ h => hguar w h.2)
    ((cursorContract_fires i).stable_free.and (hF.stable i)) ?_ hk
  exact fun w r w' hm h => ⟨free_step (.inr ho) hm.2.2.2 h.1, hF i w o r w' hm h.2⟩

variable (tx : Texts) (deps : Deps)

/-- The host is free, and its cursor has passed what has its rows. -/
abbrev Passed (deps : Deps) (i : ι) (n : Int) (w : World ι) : Prop :=
  Free i w ∧ Through deps.workspaceID deps.triggers n w

/-- A page is handled and the cursor follows. -/
theorem handlePage_through (hdeps : deps.triggers = triggersOf deps.workspaceID deps.consumer)
    (events : List Event) (cursor : Int) (limit : Nat) :
    (cursorContract ι triggersOf).Outline i
      (fun w => Free i w ∧ Through deps.workspaceID deps.triggers cursor w ∧
        Page ⟨deps.workspaceID, cursor, limit, 0⟩ events w)
      (handlePage tx deps events cursor)
      fun r => Passed deps i r.1 := by
  have hC : Fires (cursorContract ι triggersOf) i True := cursorContract_fires i
  induction events generalizing cursor limit with
  | nil => exact .ret fun _ _ h => ⟨h.1, h.2.1⟩
  | cons ev rest ih =>
    have hpage : ∀ (q : Query) (events : List Event),
        (cursorContract ι triggersOf).Persistent (Page q events) :=
      fun q events => (cursorContract_lists i).page events
    have hknown : (cursorContract ι triggersOf).Persistent fun w =>
        Through deps.workspaceID deps.triggers cursor w ∧
          Page ⟨deps.workspaceID, cursor, limit, 0⟩ (ev :: rest) w :=
      (persistent_through cursor).and (hpage _ _)
    have hnext : (cursorContract ι triggersOf).Persistent fun w =>
        Through deps.workspaceID deps.triggers ev.nid w ∧
          Page ⟨deps.workspaceID, ev.nid, 0, 0⟩ rest w :=
      (persistent_through ev.nid).and (hpage _ _)
    refine outline_beside hknown .ctxDone trivial (fun _ _ => trivial) fun (done : Bool) => ?_
    refine .ite (fun _ => .ret fun _ _ h => ⟨h.1, h.2.1⟩) fun _ => ?_
    refine .bind (fun _ => ?_) ((handle_outline tx hC deps ev).frame hknown)
    refine .pre ?_ (outline_beside hnext (.setCursor _ _ _) trivial (fun w h => ?_)
      fun _ => ih ev.nid 0)
    · intro w hinv h
      obtain ⟨⟨hfree, hfired⟩, hthrough, hp⟩ := h
      have hlog : LogInv w := CursorInv.log hinv
      refine ⟨hfree, hthrough.next hlog hp fun t ht hmatch => ?_, hp.tail⟩
      exact hfired trivial t (List.mem_filter.mpr ⟨ht, hmatch⟩)
    · have hthrough := h.1
      rw [hdeps] at hthrough
      exact hthrough

/-- A listing: no claim is made meanwhile, and the page has no gap. -/
theorem listEventsSince_through (cursor : Int) :
    (cursorContract ι triggersOf).Outline i (Passed deps i cursor)
      (listEventsSince tx deps.workspaceID cursor deps.batch)
      fun r w => Free i w ∧ Through deps.workspaceID deps.triggers cursor w ∧
        ∀ events, r = .ok events →
          Page ⟨deps.workspaceID, cursor, listLimit deps.batch, 0⟩ events w := by
  have hlists : Lists (cursorContract ι triggersOf) i := cursorContract_lists i
  have hthrough : (cursorContract ι triggersOf).Persistent
      (Through deps.workspaceID deps.triggers cursor) := persistent_through cursor
  have hboth := ((listEventsSince_outline hlists tx deps.workspaceID cursor deps.batch 0).and
    ((cursorContract_fires i).aside
      (listEventsSince_onLog tx deps.workspaceID cursor deps.batch))).frame hthrough
  refine (hboth.pre ?_).post ?_
  · exact fun w hinv h => ⟨⟨(CursorInv.log hinv).nonneg, h.1⟩, h.2⟩
  · exact fun r w _ h => ⟨h.1.2, h.2, h.1.1⟩

variable (hdeps : deps.triggers = triggersOf deps.workspaceID deps.consumer)

include hdeps

theorem drain_through (pages : Nat) (cursor : Int) :
    (cursorContract ι triggersOf).Outline i (Passed deps i cursor) (drain tx deps pages cursor)
      (Passed deps i) := by
  induction pages generalizing cursor with
  | zero => exact .ret fun _ _ h => h
  | succ pages ih =>
    refine outline_beside (persistent_through cursor) .ctxDone trivial (fun _ _ => trivial)
      fun (done : Bool) => ?_
    refine .ite (fun _ => .ret fun _ _ h => h) fun _ => ?_
    refine .bind (fun r => ?_) (listEventsSince_through tx deps cursor)
    cases r with
    | error e => exact .ret fun _ _ h => ⟨h.1, h.2.1⟩
    | ok events =>
      refine .ite (fun _ => .ret fun _ _ h => ⟨h.1, h.2.1⟩) fun _ => ?_
      have hpage := handlePage_through (i := i) tx deps hdeps events cursor (listLimit deps.batch)
      refine .bind (fun page => ?_) (hpage.pre fun w _ h => ⟨h.1, h.2.1, h.2.2 events rfl⟩)
      obtain ⟨cursor', cut⟩ := page
      exact .ite (fun _ => .ret fun _ _ h => h) fun _ => ih cursor'

theorem runLoop_through (drains : List Nat) (cursor : Int) :
    (cursorContract ι triggersOf).Outline i (Passed deps i cursor)
      (runLoop tx deps drains cursor) fun _ => Free i := by
  induction drains generalizing cursor with
  | nil => exact .ret fun _ _ h => h.1
  | cons pages rest ih =>
    refine outline_beside (persistent_through cursor) .ctxDone trivial (fun _ _ => trivial)
      fun (done : Bool) => ?_
    exact .ite (fun _ => .ret fun _ _ h => h.1) fun _ =>
      .bind ih (drain_through tx deps hdeps pages cursor)

/-- A dispatcher starts from what its cursor has passed, or from nothing. -/
theorem run_through (backlog : Nat) (drains : List Nat) :
    (cursorContract ι triggersOf).Outline i (Free i) (run tx deps backlog drains) fun _ => Free i := by
  have hfree : (cursorContract ι triggersOf).Stable i (Free i) :=
    (cursorContract_fires i).stable_free
  refine .op (fun _ _ _ => trivial) fun r => ?_
  cases r with
  | error e =>
    refine ⟨_, hfree, fun w w' h hm => ?_, .done⟩
    exact free_step (o := .getCursor _ _) (.inr trivial) hm.2.2.2 h
  | ok cursor =>
    refine ⟨_, hfree.and ((persistent_through cursor).stable i), fun w w' h hm => ?_,
      Outline.bind (fun cursor' => runLoop_through tx deps hdeps drains cursor')
        (drain_through tx deps hdeps backlog cursor)⟩
    obtain ⟨hinv, -, -, hsem⟩ := hm
    refine ⟨free_step (o := .getCursor _ _) (.inr trivial) hsem h, ?_⟩
    obtain ⟨hn, rfl⟩ := of_guard (answer_of_sem hsem)
    cases hlookup : w.cursors.lookup (deps.consumer, deps.workspaceID) with
    | some m =>
      rw [hlookup] at hn
      rw [hn, hdeps]
      exact CursorInv.cursors hinv _ _ m hlookup
    | none =>
      rw [hlookup] at hn
      rw [hn]
      exact through_zero (CursorInv.log hinv)

/-- Dispatchers serve the triggers of their consumer, and nothing is reset. -/
def Action.Serves (triggersOf : String → String → List Trigger) : Action ι → Prop
  | .dispatch deps _ _ => ∀ core, newFiringCore deps = .ok core →
      core.triggers = triggersOf core.workspaceID core.consumer
  | .reset _ => False
  | _ => True

omit hdeps

theorem action_through {a : Action ι} (ha : a.Serves triggersOf) :
    (cursorContract ι triggersOf).Outline i (Free i) (a.prog tx) fun _ => Free i := by
  cases a with
  | dispatch deps backlog drains =>
    exact outline_withCore fun core hcore => run_through tx core (ha core hcore) backlog drains
  | handleEvent deps events =>
    exact outline_withCore fun core _ =>
      handleEvent_outline tx (cursorContract_fires i) core events
  | append ctxHop event =>
    exact .bind (fun _ => .done) ((cursorContract_fires i).aside (appendEvent_onLog tx ctxHop event))
  | reset key => exact ha.elim
  | crash host =>
    refine .keep (fun _ _ _ => trivial) (cursorContract_fires i).stable_free ?_ fun _ => ?_
    · exact fun w r w' hm h => free_step (o := .crash host) (.inr trivial) hm.2.2.2 h
    · exact .done

theorem process_through {actions : List (Action ι)} (hactions : ∀ a ∈ actions, a.Serves triggersOf) :
    (cursorContract ι triggersOf).Outline i (Free i) (process tx actions) fun _ => Free i := by
  induction actions with
  | nil => exact .done
  | cons a rest ih =>
    refine .bind (fun _ => ?_) (action_through tx (hactions a List.mem_cons_self))
    exact ih fun b hb => hactions b (List.mem_cons_of_mem a hb)

end

/-! ## 3. What stands behind a cursor -/

section

/-- A log, with no cursor and no firing yet. -/
structure Unread (w : World ι) : Prop extends Unfired w where
  log : LogInv w
  cursors : w.cursors = []

theorem Unread.inv (h : Unread w) (triggersOf : String → String → List Trigger) :
    CursorInv triggersOf w where
  log := h.log
  attended key f hf := by
    unfold World.firing Table.get at hf
    rw [h.firings] at hf
    cases hf
  cursors consumer ws n hlookup := by
    rw [h.cursors] at hlookup
    cases hlookup

/-- **What a cursor has passed is accounted for**, in every run in which nothing is lost: for each
event up to the number and each trigger of the consumer that matches it there is a firing that is
settled, or that a live host is at work on. -/
theorem cursor_accounts_for_log [DecidableEq ι] (tx : Texts)
    (triggersOf : String → String → List Trigger) (actions : ι → List (Action ι))
    (hactions : ∀ i, ∀ a ∈ actions i, a.Serves triggersOf) {w : World ι} (hw : Unread w)
    {c : Config ι (World ι) (Op ι) Op.Res Unit}
    (hr : Reach sem NothingLost ⟨w, fun i => process tx (actions i)⟩ c) {consumer ws : String} {n : Int}
    (hcursor : c.store.cursors.lookup (consumer, ws) = some n) {ev : Event}
    (hev : ev ∈ c.store.log ws) (hpassed : ev.nid ≤ n) {t : Trigger} (ht : t ∈ triggersOf ws consumer)
    (hmatch : matchesType t.listenFor ev.type = true) :
    ∃ f, c.store.firing ⟨ws, t.name, ev.nid⟩ = some f ∧
      (f.status ≠ .running ∨ Attended ⟨ws, t.name, ev.nid⟩ c.store) := by
  have hfree : ∀ i, Free i w := fun i _ => hw.holds i
  have hinv : CursorInv triggersOf c.store := (Contract.reach_outline cursorContract_preserved
    (hw.inv triggersOf) (fun i => (cursorContract_fires i).stable_free) hfree
    (fun i => process_through tx (hactions i)) hr).1
  obtain ⟨f, hf⟩ := (hinv.cursors consumer ws n hcursor).fired ev hev hpassed t ht hmatch
  refine ⟨f, hf, ?_⟩
  by_cases hrunning : f.status = .running
  · exact .inr (hinv.attended _ f hf hrunning)
  · exact .inl hrunning

end

theorem unread_unfired : Unread unfired where
  toUnfired := unfired_unfired
  log :=
    { nonneg := by decide
      increasing := List.pairwise_singleton _ _
      positive := by decide
      bounded := by decide
      registered := by decide
      periods := by decide }
  cursors := rfl

/-- A host that dispatches, and one that does nothing. -/
def oneDispatches (i : Bool) : List (Action Bool) :=
  if i then [.dispatch shipDeps 1 []] else []

/-- The row cannot be written, and the cursor moves past the event. -/
theorem cursor_passes_unfired : ∃ c,
    Reach sem anyStep ⟨unfired, fun i => process plainTexts (oneDispatches i)⟩ c ∧
    c.store.cursors.lookup (defaultConsumer, "ws") = some 1 ∧ orderPlaced ∈ c.store.log "ws" ∧
    matchesType "order.placed" orderPlaced.type = true ∧
    c.store.firing shipOrder = none ∧ (∀ i, c.pool i = .ret ()) := by
  have run := (Reach.start : Reach sem anyStep
      ⟨unfired, fun i => process plainTexts (oneDispatches i)⟩ _)
    |>.step true (.getCursor defaultConsumer "ws") (.ok 0)
    |>.step true .ctxDone false
    |>.step true (.listPartitions "ws" 0) (.ok ["19700101"])
    |>.step true (.maxNID "19700101") (.ok (some 1))
    |>.step true (.selectEvents "19700101" "ws" 0 256) (.ok [orderPlaced])
    |>.step true .ctxDone false
    |>.step true .newRequestID "a"
    |>.step true .now (0 : Int)
    |>.step true (.insertFiring shipOrder "a" 0) (.failed "database is locked" false)
    |>.step true (.setCursor defaultConsumer "ws" 1) (.done ())
  exact ⟨_, run, rfl, by decide, by decide, rfl, fun i => by cases i <;> rfl⟩

/-- The row is written, the chain runs, and the cursor follows. -/
theorem cursor_accounts_for_log_fired : ∃ c,
    Reach sem NothingLost ⟨unfired, fun i => process plainTexts (oneDispatches i)⟩ c ∧
    c.store.cursors.lookup (defaultConsumer, "ws") = some 1 ∧ ∃ f, c.store.firing shipOrder = some f ∧
      (f.status ≠ .running ∨ Attended shipOrder c.store) := by
  have run := (Reach.start : Reach sem NothingLost
      ⟨unfired, fun i => process plainTexts (oneDispatches i)⟩ _)
    |>.step true (.getCursor defaultConsumer "ws") (.ok 0)
    |>.step true .ctxDone false
    |>.step true (.listPartitions "ws" 0) (.ok ["19700101"])
    |>.step true (.maxNID "19700101") (.ok (some 1))
    |>.step true (.selectEvents "19700101" "ws" 0 256) (.ok [orderPlaced])
    |>.step true .ctxDone false
    |>.step true .newRequestID "a"
    |>.step true .now (0 : Int)
    |>.step true (.insertFiring shipOrder "a" 0) (.done true)
    |>.step true (.runChain "ship" orderPlaced) none
    |>.step true .now (5 : Int)
    |>.step true (.finishFiring shipOrder .ok "" 5) (.done ())
    |>.step true (.setCursor defaultConsumer "ws" 1) (.done ())
  have hserves : ∀ i, ∀ a ∈ oneDispatches i, a.Serves fun _ _ => shipDeps.triggers := by
    intro i a ha
    cases i with
    | false => cases ha
    | true =>
      cases List.mem_singleton.mp ha
      rintro core ⟨⟩
      rfl
  refine ⟨_, run, rfl, ?_⟩
  exact cursor_accounts_for_log (t := ⟨"ship", "order.placed"⟩) plainTexts _ oneDispatches hserves
    unread_unfired run (show List.lookup (defaultConsumer, "ws") _ = some 1 from rfl)
    (show orderPlaced ∈ _ by decide) (by decide) (by decide) (by decide)

end Contenox.Events
