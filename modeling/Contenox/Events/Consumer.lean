/-
# What a consumer of the log sees

A listing takes the tables one after the other, and the numbers are global.  An event that goes to a
table the listing has passed, or does not know yet, is not in the page; if a later event then goes to
a table still to be read, it is.  The consumer goes on from the later number and the earlier event is
never seen (`consumer_skips_event`).

So what has to be excluded is that order of appends and nothing else (`CarefulAppend`): once a listing
has missed an event, no event of its workspace goes to a table it has still to read.  What it missed is
then all after what it collects, and the page is complete up to its last number.  That a page has a
bounded size, and each table's batch too, does no harm: what is left out has a full page below it.
-/
import Contenox.Events.Dispatch
import Contenox.Lib.Increasing

namespace Contenox.Events

open Lib
open Lib.Contract (Outline)
open Lib.Increasing

variable {ι : Type} {i : ι} {w w' : World ι} {events : List Event} {l : Listing} {period : String}
  {C : Contract ι (World ι) (Op ι) Op.Res}

/-! ## 1. What a step does to the log -/

section

variable {j : ι} {o : Op ι}

/-- Numbers increase with the commits, none is past the sequence, and every row is in a registered
table. -/
structure LogInv (w : World ι) : Prop where
  nonneg : 0 ≤ w.lastNID
  increasing : Inc (fun row : String × Event => row.2.nid) w.rows
  positive : ∀ row ∈ w.rows, 0 < row.2.nid
  bounded : ∀ row ∈ w.rows, row.2.nid ≤ w.lastNID
  registered : ∀ row ∈ w.rows, row.1 ∈ w.partitions
  periods : w.partitions.Nodup

/-- What a step of `j` does to the log and to the listings of the others. -/
inductive LogStep (j : ι) (w : World ι) : Op ι → World ι → Prop
  | quiet {o : Op ι} {w' : World ι} (rows : w'.rows = w.rows) (last : w'.lastNID = w.lastNID)
      (periods : w'.partitions = w.partitions ∨
        ∃ p ∉ w.partitions, w'.partitions = w.partitions ++ [p])
      (listing : ∀ i, i ≠ j → w'.listing i = w.listing i ∨ w'.dead i = true)
      (dead : ∀ i, w.dead i = true → w'.dead i = true) : LogStep j w o w'
  | append (period : String) (ev : Event) (h : period ∈ w.partitions) :
      LogStep j w (.insertEvent period ev) (w.append period ev)

/-- A statement on the cursors or the firings. -/
theorem LogStep.aside (rows : w'.rows = w.rows) (last : w'.lastNID = w.lastNID)
    (periods : w'.partitions = w.partitions) (listing : w'.listing = w.listing)
    (dead : w'.dead = w.dead) : LogStep j w o w' :=
  .quiet rows last (.inl periods) (fun i _ => .inl (congrFun listing i)) fun _ h => dead ▸ h

theorem logStep_putFiring (key : FiringKey) (requestID : String) (now : Int) :
    LogStep j w o (w.putFiring key requestID now) := by
  unfold World.putFiring
  split <;> exact .aside rfl rfl rfl rfl rfl

theorem mem_rows_append {ev : Event} : ∀ row ∈ (w.append period ev).rows,
    row ∈ w.rows ∨ row = (period, { ev with nid := w.lastNID + 1 }) := by
  intro row hrow
  rcases List.mem_append.mp hrow with hrow | hrow
  · exact .inl hrow
  · exact .inr (List.mem_singleton.mp hrow)

/-- The sequence only grows. -/
theorem le_append {n : Int} (h : n ≤ w.lastNID) (period : String) (ev : Event) :
    n ≤ (w.append period ev).lastNID :=
  h.trans (Int.le_add_of_nonneg_right (by decide))

/-- An event is appended under the next number. -/
theorem LogInv.append (h : LogInv w) (ev : Event) (hp : period ∈ w.partitions) :
    LogInv (w.append period ev) := by
  have hnonneg := h.nonneg
  refine ⟨le_append h.nonneg period ev, ?_, ?_, ?_, ?_, h.periods⟩
  · refine h.increasing.append (List.pairwise_singleton _ _) fun row hrow row' hrow' => ?_
    rw [List.mem_singleton.mp hrow']
    have := h.bounded row hrow
    change row.2.nid < w.lastNID + 1
    omega
  · intro row hrow
    rcases mem_rows_append row hrow with hrow | rfl
    · exact h.positive row hrow
    · change 0 < w.lastNID + 1
      omega
  · intro row hrow
    rcases mem_rows_append row hrow with hrow | rfl
    · exact le_append (h.bounded row hrow) period ev
    · exact le_refl _
  · intro row hrow
    rcases mem_rows_append row hrow with hrow | rfl
    · exact h.registered row hrow
    · exact hp

/-- **Every step keeps the log in order.** -/
theorem LogInv.step (h : LogInv w) (hstep : LogStep j w o w') : LogInv w' := by
  cases hstep with
  | append period ev hp => exact h.append ev hp
  | quiet rows last periods listing dead =>
    refine ⟨last ▸ h.nonneg, rows ▸ h.increasing, rows ▸ h.positive, ?_, ?_, ?_⟩
    · rw [rows, last]
      exact h.bounded
    · intro row hrow
      rw [rows] at hrow
      rcases periods with hsame | ⟨p, -, hmore⟩
      · rw [hsame]
        exact h.registered row hrow
      · rw [hmore]
        exact List.mem_append_left _ (h.registered row hrow)
    · rcases periods with hsame | ⟨p, hnew, hmore⟩
      · rw [hsame]
        exact h.periods
      rw [hmore]
      exact List.nodup_append.mpr ⟨h.periods, List.nodup_singleton p,
        fun a ha b hb => fun heq => hnew (List.mem_singleton.mp hb ▸ heq ▸ ha)⟩

variable {ws : String}

theorem mem_log {ev : Event} :
    ev ∈ w.log ws ↔ ∃ period, (period, ev) ∈ w.rows ∧ ev.workspaceID = ws := by
  simp [World.log]

theorem LogInv.log_increasing (h : LogInv w) (ws : String) : Inc Event.nid (w.log ws) := by
  refine Inc.filter ?_ _
  exact List.pairwise_map.mpr h.increasing

theorem log_append (period : String) (ev : Event) {e : Event} :
    e ∈ (w.append period ev).log ws ↔
      e ∈ w.log ws ∨ ev.workspaceID = ws ∧ e = { ev with nid := w.lastNID + 1 } := by
  rw [mem_log, mem_log]
  constructor
  · rintro ⟨p, hp, hws⟩
    rcases List.mem_append.mp hp with hp | hp
    · exact .inl ⟨p, hp, hws⟩
    · obtain ⟨-, rfl⟩ := Prod.mk.inj (List.mem_singleton.mp hp)
      exact .inr ⟨hws, rfl⟩
  · rintro (⟨p, hp, hws⟩ | ⟨hws, rfl⟩)
    · exact ⟨p, List.mem_append_left _ hp, hws⟩
    · exact ⟨period, List.mem_append_right _ (List.mem_singleton_self _), hws⟩

variable [DecidableEq ι]

theorem logStep_crash (host : ι) : LogStep j w o (w.crash host) := by
  refine .quiet rfl rfl (.inl rfl) (fun i _ => ?_) (fun i hi => ?_)
  · by_cases hih : i = host
    · rw [hih]
      exact .inr (Function.update_self _ _ _)
    · exact .inl (Function.update_of_ne hih _ _)
  · by_cases hih : i = host
    · rw [hih]
      exact Function.update_self _ _ _
    · exact (Function.update_of_ne hih _ _).trans hi

/-- A step appends one event, or leaves the rows alone. -/
theorem logStep_of_sem {r : o.Res} (h : sem j w o r = some w') : LogStep j w o w' := by
  cases effect_of_sem h with
  | crash host r => exact logStep_crash host
  | append ev r hp => exact .append _ ev hp
  | register period r =>
    unfold World.register
    split
    · exact .aside rfl rfl rfl rfl rfl
    · next hnew => exact .quiet rfl rfl (.inr ⟨period, hnew, rfl⟩) (fun _ _ => .inl rfl) fun _ h => h
  | listing o r l =>
    refine .quiet rfl rfl (.inl rfl) (fun i hi => .inl ?_) fun _ h => h
    exact Function.update_of_ne hi _ _
  | claimUntold key requestID now e => exact logStep_putFiring key requestID now
  | claim requestID now hfree =>
    unfold World.claimed World.setClaim World.putFiring
    split <;> exact .aside rfl rfl rfl rfl rfl
  | nothing | now _ | mint _ | cursor _ _ _ _ | takeOver _ _ _ | takeOverUntold _ _ _ _
    | settle _ _ _ _ _ | giveUp _ _ _ _ _ | reset _ _ _ => exact .aside rfl rfl rfl rfl rfl

end

/-! ## 2. Pages -/

/-- The condition: once a listing has missed an event, none goes to a table it has still to read. -/
def CarefulAppend {ι : Type} : Lib.StepCond ι (World ι) (Op ι) Op.Res
  | _, w, .insertEvent period ev, _ => ∀ i l, w.listing i = some l →
      l.workspaceID = ev.workspaceID → period ∈ l.todo → l.missed = none
  | _, _, _, _ => True

/-- What a listing is asked for: a workspace, from which number on, and how many at most.  `reached` is
a number the log had reached when it began. -/
structure Query where
  workspaceID : String
  afterNID : Int
  limit : Nat
  reached : Int

variable {j : ι} {o : Op ι}

section Pages

variable {q : Query} {ev : Event}

/-- A page that is complete up to its last number, and beyond it if it is not full. -/
structure Page (q : Query) (events : List Event) (w : World ι) : Prop where
  started : q.reached ≤ w.lastNID
  increasing : Inc Event.nid events
  fromLog : ∀ ev ∈ events, ev ∈ w.log q.workspaceID ∧ q.afterNID < ev.nid
  complete : ∀ ev ∈ w.log q.workspaceID, q.afterNID < ev.nid →
    ev.nid ≤ lastNIDOf q.afterNID events → ev ∈ events
  progress : ∀ ev ∈ w.log q.workspaceID, q.afterNID < ev.nid → ev.nid ≤ q.reached →
    ev ∈ events ∨ q.limit ≤ events.length

/-- What a listing has collected of the tables it has read. -/
structure Collects (q : Query) (l : Listing) (events : List Event) (w : World ι) : Prop where
  started : q.reached ≤ w.lastNID
  workspace : l.workspaceID = q.workspaceID
  after : l.afterNID = q.afterNID
  todo : l.todo.Nodup
  distinct : (events.map (·.nid)).Nodup
  fromLog : ∀ ev ∈ events, q.afterNID < ev.nid ∧ ev.workspaceID = q.workspaceID ∧
    ∃ period, (period, ev) ∈ w.rows ∧ period ∉ l.todo
  /-- what was missed comes after everything collected, and so does all that follows it -/
  late : ∀ m, l.missed = some m → q.reached < m ∧ m ≤ w.lastNID ∧ (∀ ev ∈ events, ev.nid < m) ∧
    ∀ row ∈ w.rows, row.2.workspaceID = q.workspaceID → m ≤ row.2.nid → row.1 ∉ l.todo
  covered : ∀ row ∈ w.rows, row.2.workspaceID = q.workspaceID → q.afterNID < row.2.nid →
    (∀ m, l.missed = some m → row.2.nid < m) →
    row.1 ∈ l.todo ∨ row.2 ∈ events ∨ q.limit ≤ (events.filter (·.nid < row.2.nid)).length

theorem mem_sortByNID : ev ∈ sortByNID events ↔ ev ∈ events :=
  List.mem_insertionSort _

theorem lastNIDOf_cases (after : Int) (events : List Event) :
    events = [] ∧ lastNIDOf after events = after ∨ ∃ ev ∈ events, lastNIDOf after events = ev.nid := by
  by_cases h : events = []
  · exact .inl ⟨h, by rw [h]; rfl⟩
  · refine .inr ⟨events.getLast h, List.getLast_mem h, ?_⟩
    rw [lastNIDOf, List.getLast?_eq_getLast_of_ne_nil h]
    rfl

/-- When every table is read, the first of what was collected are a page. -/
theorem Collects.page (h : Collects q l events w)
    (hdone : l.todo = []) : Page q ((sortByNID events).take q.limit) w := by
  have hinc : Inc Event.nid (sortByNID events) := inc_insertionSort h.distinct
  have hmem : ∀ ev ∈ (sortByNID events).take q.limit, ev ∈ events := fun ev hev =>
    mem_sortByNID.mp (List.mem_of_mem_take hev)
  -- a row that was not missed is collected, or has a full page below it
  have hcover : ∀ ev ∈ w.log q.workspaceID, q.afterNID < ev.nid →
      (∀ m, l.missed = some m → ev.nid < m) →
      ev ∈ (sortByNID events).take q.limit ∨
        q.limit ≤ ((sortByNID events).filter (·.nid < ev.nid)).length := by
    intro ev hev hafter hmissed
    obtain ⟨period, hrow, hws⟩ := mem_log.mp hev
    rcases h.covered _ hrow hws hafter hmissed with htodo | hcollected | hfull
    · rw [hdone] at htodo
      cases htodo
    · refine (hinc.mem_take_or_full (mem_sortByNID.mpr hcollected)).imp_right fun hfull => ?_
      exact hfull.trans ((List.take_sublist _ _).filter _).length_le
    right
    refine hfull.trans (le_of_eq ?_)
    exact ((List.perm_insertionSort _ events).filter _).length_eq.symm
  have hlong : ∀ ev : Event, q.limit ≤ ((sortByNID events).filter (·.nid < ev.nid)).length →
      ((sortByNID events).take q.limit).length = q.limit := by
    intro ev hfull
    rw [List.length_take]
    exact Nat.min_eq_left (hfull.trans (List.length_filter_le _ _))
  refine ⟨h.started, hinc.sublist (List.take_sublist _ _), ?_, ?_, ?_⟩
  · intro ev hev
    obtain ⟨hafter, hws, period, hrow, -⟩ := h.fromLog ev (hmem ev hev)
    exact ⟨mem_log.mpr ⟨period, hrow, hws⟩, hafter⟩
  · intro ev hev hafter hle
    obtain ⟨-, hlast⟩ | ⟨top, htop, hlast⟩ := lastNIDOf_cases q.afterNID ((sortByNID events).take q.limit)
    all_goals rw [hlast] at hle
    · exact absurd (hafter.trans_le hle) (lt_irrefl _)
    have hbelow : ∀ m, l.missed = some m → ev.nid < m := fun m hm =>
      hle.trans_lt ((h.late m hm).2.2.1 top (hmem top htop))
    rcases hcover ev hev hafter hbelow with hin | hfull
    · exact hin
    -- a full page below `ev` would push the last of the page out
    exact absurd (hinc.length_filter_lt_of_mem_take htop) (by
      have : ((sortByNID events).filter (·.nid < ev.nid)).length ≤
          ((sortByNID events).filter (·.nid < top.nid)).length :=
        (List.monotone_filter_right _ fun x hx => by
          simp only [decide_eq_true_eq] at hx ⊢
          omega).length_le
      omega)
  · intro ev hev hafter hle
    have hbelow : ∀ m, l.missed = some m → ev.nid < m := fun m hm =>
      hle.trans_lt (h.late m hm).1
    rcases hcover ev hev hafter hbelow with hin | hfull
    · exact .inl hin
    · exact .inr (hlong ev hfull).ge

/-- Events that come later are after the page. -/
theorem Page.append (hinv : LogInv w) (h : Page q events w) (period : String)
    (ev : Event) : Page q events (w.append period ev) := by
  have hstarted := h.started
  refine ⟨le_append h.started period ev, h.increasing, ?_, ?_, ?_⟩
  · intro e he
    obtain ⟨hlog, hafter⟩ := h.fromLog e he
    exact ⟨(log_append period ev).mpr (.inl hlog), hafter⟩
  · intro e he hafter hle
    rcases (log_append period ev).mp he with he | ⟨-, rfl⟩
    · exact h.complete e he hafter hle
    obtain ⟨-, hlast⟩ | ⟨top, htop, hlast⟩ := lastNIDOf_cases q.afterNID events
    all_goals rw [hlast] at hle
    · exact absurd (hafter.trans_le hle) (lt_irrefl _)
    obtain ⟨p, hrow, -⟩ := mem_log.mp (h.fromLog top htop).1
    have hbound : top.nid ≤ w.lastNID := hinv.bounded _ hrow
    change w.lastNID + 1 ≤ top.nid at hle
    omega
  · intro e he hafter hle
    rcases (log_append period ev).mp he with he | ⟨-, rfl⟩
    · exact h.progress e he hafter hle
    · change w.lastNID + 1 ≤ q.reached at hle
      omega

theorem log_eq_of_rows (h : w'.rows = w.rows) (ws : String) : w'.log ws = w.log ws := by
  unfold World.log
  rw [h]

/-- A page that was read stays a page of the log. -/
theorem Page.step (hinv : LogInv w) (hstep : LogStep j w o w') (h : Page q events w) :
    Page q events w' := by
  cases hstep with
  | append period ev _ => exact h.append hinv period ev
  | quiet rows last periods listing dead =>
    have hlog := log_eq_of_rows rows q.workspaceID
    exact ⟨last ▸ h.started, h.increasing, hlog ▸ h.fromLog, hlog ▸ h.complete, hlog ▸ h.progress⟩

/-- An append while a listing runs.  Where the new row goes to a table the listing has passed, it is
the first that is missed, or comes after it; where it goes to one still to be read, nothing has been
missed. -/
theorem Collects.append (hinv : LogInv w) (h : Collects q l events w) (period : String) (ev : Event)
    (hcareful : l.workspaceID = ev.workspaceID → period ∈ l.todo → l.missed = none) :
    Collects q (l.notice period { ev with nid := w.lastNID + 1 }) events (w.append period ev) := by
  have hstarted := h.started
  have hold : ∀ e ∈ events, e.nid ≤ w.lastNID := by
    intro e he
    obtain ⟨-, -, p, hrow, -⟩ := h.fromLog e he
    exact hinv.bounded _ hrow
  have hfrom : ∀ e ∈ events, q.afterNID < e.nid ∧ e.workspaceID = q.workspaceID ∧
      ∃ p, (p, e) ∈ (w.append period ev).rows ∧ p ∉ l.todo := by
    intro e he
    obtain ⟨hafter, hws, p, hrow, hp⟩ := h.fromLog e he
    exact ⟨hafter, hws, p, List.mem_append_left _ hrow, hp⟩
  have hmore := le_append h.started period ev
  unfold Listing.notice
  split
  · next hmiss =>
    obtain ⟨hws, hpassed, hnone⟩ := hmiss
    refine ⟨hmore, h.workspace, h.after, h.todo, h.distinct, hfrom, ?_, ?_⟩
    · rintro m ⟨⟩
      change q.reached < w.lastNID + 1 ∧ w.lastNID + 1 ≤ w.lastNID + 1 ∧
        (∀ e ∈ events, e.nid < w.lastNID + 1) ∧ _
      refine ⟨by omega, le_refl _, fun e he => by have := hold e he; omega, ?_⟩
      intro row hrow _ hle
      rcases mem_rows_append row hrow with hrow | rfl
      · have := hinv.bounded row hrow
        change w.lastNID + 1 ≤ row.2.nid at hle
        omega
      · exact hpassed
    · intro row hrow hrws hafter hbelow
      rcases mem_rows_append row hrow with hrow | rfl
      · exact h.covered row hrow hrws hafter (by simp [hnone])
      · exact absurd (hbelow _ rfl) (lt_irrefl _)
  · next hkeep =>
    refine ⟨hmore, h.workspace, h.after, h.todo, h.distinct, hfrom, ?_, ?_⟩
    · intro m hm
      obtain ⟨hreached, hbound, hcollected, hafterwards⟩ := h.late m hm
      refine ⟨hreached, le_append hbound period ev, hcollected, ?_⟩
      intro row hrow hrws hle
      rcases mem_rows_append row hrow with hrow | rfl
      · exact hafterwards row hrow hrws hle
      intro htodo
      have hnone := hcareful (h.workspace.trans hrws.symm) htodo
      rw [hnone] at hm
      cases hm
    · intro row hrow hrws hafter hbelow
      rcases mem_rows_append row hrow with hrow | rfl
      · exact h.covered row hrow hrws hafter hbelow
      left
      by_contra htodo
      have hws : l.workspaceID = ev.workspaceID := h.workspace.trans hrws.symm
      -- it would have been noticed, unless something was missed before it
      cases hmissed : l.missed with
      | none => exact hkeep ⟨hws, htodo, hmissed⟩
      | some m =>
        have hlt : w.lastNID + 1 < m := hbelow m hmissed
        obtain ⟨-, hbound, -, -⟩ := h.late m hmissed
        omega

/-- Where the host stands in the loop over the tables: with a page, when none is left. -/
def Standing (i : ι) (q : Query) (todo : List String) (events : List Event) (w : World ι) : Prop :=
  if todo = [] then Page q ((sortByNID events).take q.limit) w
  else w.dead i = false → ∃ l, w.listing i = some l ∧ l.todo = todo ∧ Collects q l events w

theorem standing_of_collects {todo : List String} (hl : w.listing i = some l)
    (htodo : l.todo = todo) (h : Collects q l events w) : Standing i q todo events w := by
  unfold Standing
  split
  · next hnil => exact h.page (htodo.trans hnil)
  · exact fun _ => ⟨l, hl, htodo, h⟩

theorem Collects.quiet (h : Collects q l events w) (rows : w'.rows = w.rows)
    (last : w'.lastNID = w.lastNID) : Collects q l events w' where
  started := last ▸ h.started
  workspace := h.workspace
  after := h.after
  todo := h.todo
  distinct := h.distinct
  fromLog := rows ▸ h.fromLog
  late := by
    rw [rows, last]
    exact h.late
  covered := rows ▸ h.covered

theorem mem_table : ev ∈ w.table period ↔ (period, ev) ∈ w.rows := by
  simp [World.table]

theorem filter_ne_cons {rest : List String} (h : (period :: rest).Nodup) :
    (period :: rest).filter (· ≠ period) = rest := by
  obtain ⟨hp, -⟩ := List.nodup_cons.mp h
  rw [List.filter_cons_of_neg (by simp)]
  refine List.filter_eq_self.mpr fun p hrest => ?_
  have : p ≠ period := fun heq => hp (heq ▸ hrest)
  simpa using this

theorem le_maxOf (h : ev ∈ w.table period) : ∃ n, w.maxOf period = some n ∧ ev.nid ≤ n := by
  unfold World.maxOf
  have hmem : ev.nid ∈ (w.table period).map (·.nid) := List.mem_map_of_mem h
  cases hmax : ((w.table period).map (·.nid)).max? with
  | none =>
    rw [List.max?_eq_none_iff.mp hmax] at hmem
    cases hmem
  | some n => exact ⟨n, rfl, (List.max?_eq_some_iff.mp hmax).2 _ hmem⟩

theorem LogInv.table_distinct (h : LogInv w) (period : String) :
    ((w.table period).map (·.nid)).Nodup := by
  unfold World.table
  rw [List.map_map]
  refine List.Nodup.sublist (List.filter_sublist.map _) ?_
  refine List.pairwise_map.mpr (h.increasing.imp ?_)
  intro row row' hlt
  exact ne_of_lt hlt

end Pages

/-! ## 3. A listing -/

section

variable [DecidableEq ι] {q : Query} {batch : List Event} {rest : List String}

/-- A contract under which listings work: the statements are those of the store, appends are
careful, and nothing is asked of those who read. -/
structure Lists (C : Contract ι (World ι) (Op ι) Op.Res) (i : ι) : Prop where
  sem : C.sem = sem
  careful : ∀ j w o r, C.ok j w o r → CarefulAppend j w o r
  log : ∀ w, C.inv w → LogInv w
  listPartitions : ∀ w ws after, C.guar i w (.listPartitions ws after)
  maxNID : ∀ w period, C.guar i w (.maxNID period)
  selectEvents : ∀ w period ws after limit, C.guar i w (.selectEvents period ws after limit)

theorem Lists.logStep (hC : Lists C i) {r : o.Res} (hm : C.Move j w o r w') : LogStep j w o w' :=
  logStep_of_sem (hC.sem ▸ hm.2.2.2)

theorem Lists.page (hC : Lists C i) (events : List Event) : C.Persistent (Page q events) :=
  fun _ w _ _ _ hm h => h.step (hC.log w hm.1) (hC.logStep hm)

theorem Lists.standing (hC : Lists C i) (todo : List String) (events : List Event) :
    C.Stable i (Standing i q todo events) := by
  intro j w o r w' hj hm h
  by_cases hnil : todo = []
  · unfold Standing at h ⊢
    rw [if_pos hnil] at h ⊢
    exact hC.page _ j w o r w' hm h
  · unfold Standing at h ⊢
    rw [if_neg hnil] at h ⊢
    intro halive
    cases hC.logStep hm with
    | quiet rows last periods listing dead =>
      have halive₀ : w.dead i = false := by
        cases hdead : w.dead i with
        | false => rfl
        | true => rw [dead i hdead] at halive; cases halive
      obtain ⟨l, hl, htodo, hcollects⟩ := h halive₀
      rcases listing i (Ne.symm hj) with hsame | hdead
      · exact ⟨l, hsame.trans hl, htodo, hcollects.quiet rows last⟩
      · rw [hdead] at halive
        cases halive
    | append period ev _ =>
      obtain ⟨l, hl, htodo, hcollects⟩ := h halive
      have hcareful : l.workspaceID = ev.workspaceID → period ∈ l.todo → l.missed = none :=
        hC.careful j w _ r hm.2.2.1 i l hl
      refine ⟨l.notice period { ev with nid := w.lastNID + 1 }, ?_, ?_,
        hcollects.append (hC.log w hm.1) period ev hcareful⟩
      · change (w.listing i).map _ = _
        rw [hl]
        rfl
      · unfold Listing.notice
        split <;> exact htodo

/-- A listing begins: every row is in a table it will read. -/
theorem listPartitions_standing {periods : List String} (hinv : LogInv w)
    (hreached : q.reached ≤ w.lastNID)
    (h : sem i w (.listPartitions q.workspaceID q.afterNID) (.ok periods) = some w') :
    Standing i q periods [] w' := by
  have h := answer_of_sem h
  obtain ⟨hperiods, rfl⟩ := of_guard h
  have hmem : ∀ p, p ∈ w.partitions → p ∈ periods := by
    intro p hp
    rw [hperiods]
    exact (List.mem_insertionSort _).mpr hp
  refine standing_of_collects (Function.update_self _ _ _) rfl ?_
  refine ⟨hreached, rfl, rfl, ?_, List.nodup_nil, by simp, by simp, ?_⟩
  · rw [hperiods]
    exact (List.perm_insertionSort _ _).nodup_iff.mpr hinv.periods
  · intro row hrow _ _ _
    exact .inl (hmem _ (hinv.registered row hrow))

/-- A listing is done with a table, of which it has collected all it has to. -/
theorem Collects.pass (hinv : LogInv w) (h : Collects q l events w) (hperiod : period ∈ l.todo)
    (hdistinct : (batch.map (·.nid)).Nodup)
    (hin : ∀ ev ∈ batch, (period, ev) ∈ w.rows ∧ ev.workspaceID = q.workspaceID ∧ q.afterNID < ev.nid)
    (hall : ∀ ev ∈ w.table period, ev.workspaceID = q.workspaceID → q.afterNID < ev.nid →
      ev ∈ batch ∨ q.limit ≤ (batch.filter (·.nid < ev.nid)).length) :
    Collects q { l with todo := l.todo.filter (· ≠ period) } (events ++ batch)
      (w.passTable i period) := by
  refine ⟨h.started, h.workspace, h.after, h.todo.filter _, ?_, ?_, ?_, ?_⟩
  · rw [List.map_append]
    refine List.nodup_append.mpr ⟨h.distinct, hdistinct, ?_⟩
    intro n hn n' hn' heq
    obtain ⟨ev, hev, rfl⟩ := List.mem_map.mp hn
    obtain ⟨ev', hev', rfl⟩ := List.mem_map.mp hn'
    obtain ⟨-, -, p, hrow, hp⟩ := h.fromLog ev hev
    -- one number, one row: the event would be in two tables
    have hsame := hinv.increasing.key_injective hrow (hin ev' hev').1 heq
    exact hp ((Prod.mk.inj hsame).1 ▸ hperiod)
  · intro ev hev
    rcases List.mem_append.mp hev with hev | hev
    · obtain ⟨hafter, hws, p, hrow, hp⟩ := h.fromLog ev hev
      exact ⟨hafter, hws, p, hrow, fun hmem => hp (List.mem_of_mem_filter hmem)⟩
    · obtain ⟨hrow, hws, hafter⟩ := hin ev hev
      exact ⟨hafter, hws, period, hrow, by simp⟩
  · intro m hm
    obtain ⟨hreached, hbound, hcollected, hafterwards⟩ := h.late m hm
    refine ⟨hreached, hbound, ?_, fun row hrow hws hle hmem =>
      hafterwards row hrow hws hle (List.mem_of_mem_filter hmem)⟩
    intro ev hev
    rcases List.mem_append.mp hev with hev | hev
    · exact hcollected ev hev
    obtain ⟨hrow, hws, -⟩ := hin ev hev
    by_contra hle
    exact hafterwards _ hrow hws (not_lt.mp hle) hperiod
  · intro row hrow hws hafter hbelow
    rw [List.filter_append, List.length_append]
    rcases h.covered row hrow hws hafter hbelow with htodo | hcollected | hfull
    · by_cases hp : row.1 = period
      · refine .inr ((hall row.2 (mem_table.mpr (hp ▸ hrow)) hws hafter).imp
          (List.mem_append_right _) fun hfull => ?_)
        omega
      · exact .inl (List.mem_filter.mpr ⟨htodo, by simpa using hp⟩)
    · exact .inr (.inl (List.mem_append_left _ hcollected))
    right
    right
    omega

/-- A listing collects a table's batch. -/
theorem Collects.take (hinv : LogInv w) (h : Collects q l events w) (hperiod : period ∈ l.todo)
    (hbatch : batch = w.select period q.workspaceID q.afterNID q.limit) :
    Collects q { l with todo := l.todo.filter (· ≠ period) } (events ++ batch)
      (w.passTable i period) := by
  have hinc : Inc Event.nid (sortByNID ((w.table period).filter fun ev =>
      ev.workspaceID = q.workspaceID ∧ q.afterNID < ev.nid)) :=
    inc_insertionSort (hinv.table_distinct period |>.sublist (List.filter_sublist.map _))
  subst hbatch
  refine h.pass hinv hperiod ?_ (fun ev hev => ?_) fun ev hev hws hafter => ?_
  · exact List.pairwise_map.mpr ((hinc.sublist (List.take_sublist _ _)).imp ne_of_lt)
  · obtain ⟨htable, hcond⟩ := List.mem_filter.mp (mem_sortByNID.mp (List.mem_of_mem_take hev))
    exact ⟨mem_table.mp htable, by simpa using hcond⟩
  · exact hinc.mem_take_or_full
      (mem_sortByNID.mpr (List.mem_filter.mpr ⟨hev, by simp [hws, hafter]⟩))

theorem listing_passTable (period : String) (hl : w.listing i = some l) :
    (w.passTable i period).listing i = some { l with todo := l.todo.filter (· ≠ period) } := by
  change Function.update w.listing i _ i = _
  rw [Function.update_self, hl]
  rfl

/-- The first statement on a table: the listing is done with it if nothing in it is new. -/
theorem maxNID_standing {m : Option Int} (hinv : LogInv w)
    (h : Standing i q (period :: rest) events w) (hsem : sem i w (.maxNID period) (.ok m) = some w') :
    if m.all (· ≤ q.afterNID) then Standing i q rest events w'
    else Standing i q (period :: rest) events w' := by
  obtain ⟨l, hl, htodo, hcollects⟩ := h (alive_of_sem hsem)
  have hans := answer_of_sem hsem
  simp only [answer, Option.ite_none_right_eq_some] at hans
  obtain ⟨hm, hans⟩ := hans
  have hnew : nothingNew (w.listing i) m = m.all (· ≤ q.afterNID) := by
    rw [hl, ← hcollects.after]
    cases m with
    | none | some _ => rfl
  rw [hnew] at hans
  cases hall : m.all (· ≤ q.afterNID) with
  | true =>
    rw [hall] at hans
    cases hans
    refine standing_of_collects (listing_passTable period hl) ?_
      (List.append_nil events ▸ hcollects.pass hinv (htodo ▸ List.mem_cons_self) List.nodup_nil
        (nofun) fun ev hev _ hafter => ?_)
    · rw [htodo]
      exact filter_ne_cons (htodo ▸ hcollects.todo)
    · obtain ⟨n, hmax, hle⟩ := le_maxOf hev
      rw [hm, hmax] at hall
      have hn : n ≤ q.afterNID := by simpa using hall
      omega
  | false =>
    rw [hall] at hans
    cases hans
    exact h

/-- The second statement on a table: its batch is collected. -/
theorem selectEvents_standing (hinv : LogInv w) (h : Standing i q (period :: rest) events w)
    (hsem : sem i w (.selectEvents period q.workspaceID q.afterNID q.limit) (.ok batch) = some w') :
    Standing i q rest (events ++ batch) w' := by
  obtain ⟨l, hl, htodo, hcollects⟩ := h (alive_of_sem hsem)
  have hans := answer_of_sem hsem
  obtain ⟨hbatch, rfl⟩ := of_guard hans
  have hperiod : period ∈ l.todo := htodo ▸ List.mem_cons_self
  exact standing_of_collects (listing_passTable period hl)
    ((congrArg _ htodo).trans (filter_ne_cons (htodo ▸ hcollects.todo)))
    (hcollects.take hinv hperiod hbatch)

/-- What the tables gave, in order and cut off, is a page. -/
theorem readTables_outline (hC : Lists C i) (tx : Texts) (todo : List String)
    (events : List Event) :
    C.Outline i (Standing i q todo events)
      (readTables tx q.workspaceID q.afterNID q.limit todo events)
      fun r w => ∀ collected, r = .ok collected →
        Page q ((sortByNID collected).take q.limit) w := by
  induction todo generalizing events with
  | nil =>
    refine .ret fun w _ h collected hok => ?_
    cases hok
    exact h
  | cons period rest ih =>
    unfold readTables
    dsimp only
    split
    · exact .ret fun _ _ _ _ => nofun
    refine .op (fun w _ _ => hC.maxNID w period) fun r => ?_
    cases r with
    | error e => exact Outline.forget (.ret fun _ _ _ _ => nofun)
    | ok m =>
      have hnext : ∀ w w', Standing i q (period :: rest) events w →
          C.Move i w (.maxNID period) (.ok m) w' →
          if m.all (· ≤ q.afterNID) then Standing i q rest events w'
          else Standing i q (period :: rest) events w' := fun w w' h hm =>
        maxNID_standing (hC.log w hm.1) h (hC.sem ▸ hm.2.2.2)
      change ∃ ψ, _ ∧ _ ∧ C.Outline i ψ (if m.all (· ≤ q.afterNID) = true then _ else _) _
      split
      · next hall =>
        simp only [if_pos hall] at hnext
        exact ⟨_, hC.standing rest events, hnext, ih events⟩
      · next hall =>
        simp only [if_neg hall] at hnext
        refine ⟨_, hC.standing (period :: rest) events, hnext, ?_⟩
        refine .op (fun w _ _ => hC.selectEvents w _ _ _ _) fun r => ?_
        cases r with
        | error e => exact Outline.forget (.ret fun _ _ _ _ => nofun)
        | ok batch =>
          refine ⟨_, hC.standing rest (events ++ batch), fun w w' h hm => ?_, ih (events ++ batch)⟩
          exact selectEvents_standing (hC.log w hm.1) h (hC.sem ▸ hm.2.2.2)

/-- **A page has no gap**, whatever is appended while it is being listed. -/
theorem listEventsSince_outline (hC : Lists C i) (tx : Texts) (ws : String)
    (after limit reached : Int) :
    C.Outline i (fun w => reached ≤ w.lastNID) (listEventsSince tx ws after limit)
      fun r w => ∀ events, r = .ok events →
        Page ⟨ws, after, listLimit limit, reached⟩ events w := by
  unfold listEventsSince
  split
  · exact .ret fun _ _ _ _ => nofun
  refine .op (fun w _ _ => hC.listPartitions w ws after) fun r => ?_
  cases r with
  | error e => exact Outline.forget (.ret fun _ _ _ _ => nofun)
  | ok periods =>
    let q : Query := ⟨ws, after, listLimit limit, reached⟩
    refine ⟨Standing i q periods [], hC.standing periods [], fun w w' hreached hm => ?_, ?_⟩
    · exact listPartitions_standing (hC.log w hm.1) hreached (hC.sem ▸ hm.2.2.2)
    change C.Outline i _ (readTables tx ws after (listLimit limit) periods [] >>= _) _
    refine .bind (fun r => ?_) (readTables_outline hC tx periods [])
    cases r with
    | error e => exact .ret fun _ _ _ _ => nofun
    | ok collected =>
      refine .ret fun w _ h events hok => ?_
      cases hok
      exact h collected rfl

end

/-! ## 4. The consumer -/

section

variable {ws : String} {log₀ : List Event} {reached after : Int} {seen : List Event} {listed : Nat}

/-- What a consumer has seen when it stands at the number `after`: all of the log up to it.  Each
listing brought an event, unless all that was there at the beginning (`log₀`) has been seen. -/
structure Seen (ws : String) (log₀ : List Event) (reached after : Int) (seen : List Event)
    (listed : Nat) (w : World ι) : Prop where
  started : reached ≤ w.lastNID
  position : after ≤ w.lastNID
  window : seen = (w.log ws).filter (·.nid ≤ after)
  initial : ∀ ev ∈ log₀, ev ∈ w.log ws ∧ ev.nid ≤ reached
  counted : listed ≤ seen.length ∨ ∀ ev ∈ log₀, ev.nid ≤ after

theorem Seen.append (h : Seen ws log₀ reached after seen listed w) (period : String) (ev : Event) :
    Seen ws log₀ reached after seen listed (w.append period ev) := by
  have hposition := h.position
  refine ⟨le_append h.started period ev, le_append hposition period ev, ?_, ?_, h.counted⟩
  · have hlog : (w.append period ev).log ws =
        w.log ws ++ [{ ev with nid := w.lastNID + 1 }].filter (·.workspaceID = ws) := by
      unfold World.log World.append
      rw [List.map_append, List.filter_append]
      rfl
    have hnone : ([{ ev with nid := w.lastNID + 1 }].filter (·.workspaceID = ws)).filter
        (·.nid ≤ after) = [] := by
      refine List.filter_eq_nil_iff.mpr fun e he => ?_
      rw [List.mem_singleton.mp (List.mem_of_mem_filter he)]
      simp only [decide_eq_true_eq]
      omega
    rw [hlog, List.filter_append, hnone, List.append_nil]
    exact h.window
  · intro e he
    obtain ⟨hlog, hle⟩ := h.initial e he
    exact ⟨(log_append period ev).mpr (.inl hlog), hle⟩

theorem Seen.step (hstep : LogStep j w o w') (h : Seen ws log₀ reached after seen listed w) :
    Seen ws log₀ reached after seen listed w' := by
  cases hstep with
  | append period ev _ => exact h.append period ev
  | quiet rows last periods listing dead =>
    have hlog := log_eq_of_rows rows ws
    exact ⟨last ▸ h.started, last ▸ h.position, hlog ▸ h.window, hlog ▸ h.initial, h.counted⟩

variable {limit : Nat}

theorem le_lastNIDOf (h : Page ⟨ws, after, limit, reached⟩ events w) :
    after ≤ lastNIDOf after events ∧ ∀ ev ∈ events, ev.nid ≤ lastNIDOf after events := by
  by_cases hempty : events = []
  · rw [hempty]
    exact ⟨le_refl _, by simp⟩
  have hlast : lastNIDOf after events = (events.getLast hempty).nid := by
    rw [lastNIDOf, List.getLast?_eq_getLast_of_ne_nil hempty]
    rfl
  rw [hlast]
  exact ⟨(h.fromLog _ (List.getLast_mem hempty)).2.le,
    fun ev hev => h.increasing.le_getLast hempty hev⟩

/-- One more page. -/
theorem Seen.page (hlimit : 0 < limit) (hinv : LogInv w)
    (h : Seen ws log₀ reached after seen listed w)
    (hpage : Page ⟨ws, after, limit, reached⟩ events w) :
    Seen ws log₀ reached (lastNIDOf after events) (seen ++ events) (listed + 1) w := by
  obtain ⟨hafter, htop⟩ := le_lastNIDOf hpage
  have hinc := hinv.log_increasing ws
  have hevents : events = (w.log ws).filter fun ev =>
      after < ev.nid ∧ ev.nid ≤ lastNIDOf after events := by
    refine Inc.ext hpage.increasing (hinc.filter _) fun ev => ?_
    rw [List.mem_filter, decide_eq_true_eq]
    constructor
    · intro hev
      exact ⟨(hpage.fromLog ev hev).1, (hpage.fromLog ev hev).2, htop ev hev⟩
    · rintro ⟨hlog, hlt, hle⟩
      exact hpage.complete ev hlog hlt hle
  refine ⟨h.started, ?_, ?_, h.initial, ?_⟩
  · obtain ⟨-, hlast⟩ | ⟨top, hmem, hlast⟩ := lastNIDOf_cases after events
    all_goals rw [hlast]
    · exact h.position
    obtain ⟨p, hrow, -⟩ := mem_log.mp (hpage.fromLog top hmem).1
    exact hinv.bounded _ hrow
  · conv_lhs => rw [h.window, hevents]
    exact hinc.window hafter
  rcases h.counted with hcount | hall
  · by_cases hall : ∀ ev ∈ log₀, ev.nid ≤ after
    · exact .inr fun ev hev => (hall ev hev).trans hafter
    -- something that was there is still ahead, so the page is not empty
    push Not at hall
    obtain ⟨ev, hev, hlt⟩ := hall
    obtain ⟨hlog, hle⟩ := h.initial ev hev
    have hlength : 0 < events.length := by
      rcases hpage.progress ev hlog hlt hle with hmem | hfull
      · exact List.length_pos_of_mem hmem
      · exact hlimit.trans_le hfull
    left
    rw [List.length_append]
    omega
  · exact .inr fun ev hev => (hall ev hev).trans hafter

theorem listLimit_pos (limit : Int) : 0 < listLimit limit := by
  unfold listLimit
  split
  · decide
  next h =>
  omega

variable [DecidableEq ι]

theorem Lists.persistent_seen (hC : Lists C i) :
    C.Persistent (Seen ws log₀ reached after seen listed) :=
  fun _ _ _ _ _ hm h => h.step (hC.logStep hm)

/-- The consumer goes on behind the last event of its page. -/
theorem consume_outline (hC : Lists C i) (tx : Texts) (limit : Int) (rounds : Nat) (after : Int)
    (seen : List Event) (listed : Nat) :
    C.Outline i (Seen ws log₀ reached after seen listed)
      (consume tx ws limit rounds after seen listed)
      fun r w => ∃ last, Seen ws log₀ reached last r.1 r.2 w := by
  induction rounds generalizing after seen listed with
  | zero => exact .ret fun w _ h => ⟨after, h⟩
  | succ rounds ih =>
    refine .bind (fun r => ?_) (Outline.pre (fun w _ h => ⟨h.started, h⟩)
      ((listEventsSince_outline hC tx ws after limit reached).frame hC.persistent_seen))
    cases r with
    | error e => exact .pre (fun w _ h => h.2) (ih after seen listed)
    | ok events =>
      refine .pre (fun w hinv h => ?_) (ih (lastNIDOf after events) (seen ++ events) (listed + 1))
      exact h.2.page (listLimit_pos limit) (hC.log w hinv) (h.1 events rfl)

/-- The log, with every careful append. -/
def logContract (ι : Type) [DecidableEq ι] : Contract ι (World ι) (Op ι) Op.Res where
  sem := sem
  ok := CarefulAppend
  inv := LogInv
  guar := fun _ _ _ => True

theorem logContract_lists (i : ι) : Lists (logContract ι) i where
  sem := rfl
  careful _ _ _ _ h := h
  log _ h := h
  listPartitions _ _ _ := trivial
  maxNID _ _ := trivial
  selectEvents _ _ _ _ _ := trivial

theorem logContract_preserved : (logContract ι).Preserved :=
  fun i _ _ _ _ hm => hm.1.step ((logContract_lists i).logStep hm)

/-- A process that is asked for nothing. -/
theorem outline_any {α : Type} (p : EventProg ι α) :
    (logContract ι).Outline i (fun _ => True) p fun _ _ => True := by
  refine Outline.of_issues (P := fun _ => True) (Contract.persistent_const True)
    (fun _ _ _ _ _ => trivial) ?_
  induction p with
  | ret a => trivial
  | op o k ih => exact ⟨trivial, ih⟩

/-- **A consumer sees the log without a gap.**  Whatever the other processes do, as long as no
listing is passed by an append after it has missed one: what a consumer has seen after any number of
listings is an initial part of its workspace's log, in the order of the numbers, and everything that
was in the log at the beginning is in it unless each listing so far has brought an event. -/
theorem consumer_sees_log {tx : Texts} {limit : Int} {rounds : Nat}
    {pool : ι → EventProg ι (List Event × Nat)} {w : World ι} (hinv : LogInv w)
    (hpool : pool i = consume tx ws limit rounds 0 [] 0)
    {c : Config ι (World ι) (Op ι) Op.Res (List Event × Nat)}
    (hreach : Reach sem CarefulAppend ⟨w, pool⟩ c) {seen : List Event} {listed : Nat}
    (hret : c.pool i = .ret (seen, listed)) :
    seen <+: c.store.log ws ∧ Inc Event.nid seen ∧
      (listed ≤ seen.length ∨ ∀ ev ∈ w.log ws, ev ∈ seen) := by
  have hC := logContract_lists i
  have hstart : Seen ws (w.log ws) w.lastNID 0 [] 0 w := by
    refine ⟨le_refl _, hinv.nonneg, ?_, ?_, .inl (Nat.zero_le _)⟩
    · refine (List.filter_eq_nil_iff.mpr fun ev hev => ?_).symm
      obtain ⟨p, hrow, -⟩ := mem_log.mp hev
      simpa using hinv.positive _ hrow
    · intro ev hev
      obtain ⟨p, hrow, -⟩ := mem_log.mp hev
      exact ⟨hev, hinv.bounded _ hrow⟩
  -- only the consumer knows anything
  have hstable : ∀ j, (logContract ι).Stable j fun w' =>
      j = i → Seen ws (w.log ws) w.lastNID 0 [] 0 w' := fun j k w o r w' _ hm h hj =>
    hC.persistent_seen k w o r w' hm (h hj)
  have houtline : ∀ j, (logContract ι).Outline j
      (fun w' => j = i → Seen ws (w.log ws) w.lastNID 0 [] 0 w') (pool j)
      fun r w' => j = i → ∃ last, Seen ws (w.log ws) w.lastNID last r.1 r.2 w' := by
    intro j
    by_cases hj : j = i
    · subst hj
      rw [hpool]
      exact ((consume_outline hC tx limit rounds 0 [] 0).pre fun w' _ h => h rfl).post
        fun r w' _ h _ => h
    · exact ((outline_any (pool j)).pre fun _ _ _ => trivial).post fun r w' _ _ hji => absurd hji hj
  have hinv' : LogInv c.store := (Contract.reach_outline logContract_preserved hinv hstable
    (fun j _ => hstart) houtline hreach).1
  obtain ⟨last, hseen⟩ := Contract.reach_post logContract_preserved hinv hstable
    (fun j _ => hstart) houtline hreach hret rfl
  have hinc := hinv'.log_increasing ws
  have hwindow : seen = (c.store.log ws).filter (·.nid ≤ last) := hseen.window
  refine ⟨?_, ?_, ?_⟩
  · rw [hwindow]
    exact hinc.filter_le_initial last
  · rw [hwindow]
    exact hinc.filter _
  refine hseen.counted.imp_right fun hall ev hev => ?_
  rw [hwindow]
  exact List.mem_filter.mpr ⟨(hseen.initial ev hev).1, by simpa using hall ev hev⟩

end

/-! ## 5. Two days -/

/-- A layout with two days. -/
def twoDayTexts : Texts where
  periodKey t := if t < 100 then "19700101" else "19700102"
  quote s := "\"" ++ s ++ "\""

/-- Both tables are there and nothing is in them. -/
def twoDays : World Bool where
  clock := 0
  minted := []
  lastNID := 0
  partitions := ["19700101", "19700102"]
  rows := []
  cursors := []
  firings := []
  listing _ := none
  holds _ := none
  begun := []
  resets := []
  reports := []
  dead _ := false

def draftAt (time : Int) : Draft := ⟨"ws", "note", "", "", some time, none, 0⟩

/-- The event a draft becomes. -/
def eventAt (nid time : Int) : Event := ⟨nid, "ws", "note", "", "", time, "\x7b\x7d", 0⟩

/-- One consumer, which makes `rounds` listings, and one process that appends two events, the first
of the day before the second. -/
def midnight (rounds : Nat) : Bool → EventProg Bool (List Event × Nat)
  | true => consume twoDayTexts "ws" 10 rounds 0 [] 0
  | false => do
    let _ ← appendEvent twoDayTexts 0 (some (draftAt 99))
    let _ ← appendEvent twoDayTexts 0 (some (draftAt 101))
    return ([], 0)

theorem logInv_twoDays : LogInv twoDays where
  nonneg := by decide
  increasing := List.Pairwise.nil
  positive := by simp [twoDays]
  bounded := by simp [twoDays]
  registered := by simp [twoDays]
  periods := by decide

/-- Both events are appended after the listing has passed the first day and before it reads the
second. -/
theorem consumer_skips_event : ∃ c, Reach sem anyStep ⟨twoDays, midnight 2⟩ c ∧
    c.pool true = .ret ([eventAt 2 101], 2) ∧
    c.store.log "ws" = [eventAt 1 99, eventAt 2 101] := by
  have run := (Reach.start : Reach sem anyStep ⟨twoDays, midnight 2⟩ _)
    |>.step true (.listPartitions "ws" 0) (.ok ["19700101", "19700102"])
    |>.step true (.maxNID "19700101") (.ok none)
    |>.step false .now (100 : Int)
    |>.step false (.createPartition "19700101") (.ok ())
    |>.step false (.indexPartition "19700101") (.ok ())
    |>.step false (.indexPartition "19700101") (.ok ())
    |>.step false (.registerPartition "19700101") (.done ())
    |>.step false (.insertEvent "19700101" (eventAt 0 99)) (.done 1)
    |>.step false .now (100 : Int)
    |>.step false (.createPartition "19700102") (.ok ())
    |>.step false (.indexPartition "19700102") (.ok ())
    |>.step false (.indexPartition "19700102") (.ok ())
    |>.step false (.registerPartition "19700102") (.done ())
    |>.step false (.insertEvent "19700102" (eventAt 0 101)) (.done 2)
    |>.step true (.maxNID "19700102") (.ok (some 2))
    |>.step true (.selectEvents "19700102" "ws" 0 10) (.ok [eventAt 2 101])
    |>.step true (.listPartitions "ws" 2) (.ok ["19700101", "19700102"])
    |>.step true (.maxNID "19700101") (.ok (some 1))
    |>.step true (.maxNID "19700102") (.ok (some 2))
  exact ⟨_, run, rfl, rfl⟩

/-- The first event is missed, and the second comes when the listing has read everything: the next
listing has both. -/
theorem consumer_sees_log_midnight : ∃ c, Reach sem CarefulAppend ⟨twoDays, midnight 2⟩ c ∧
    c.pool true = .ret ([eventAt 1 99, eventAt 2 101], 2) ∧
    [eventAt 1 99, eventAt 2 101] <+: c.store.log "ws" := by
  have run := (Reach.start : Reach sem CarefulAppend ⟨twoDays, midnight 2⟩ _)
    |>.step true (.listPartitions "ws" 0) (.ok ["19700101", "19700102"])
    |>.step true (.maxNID "19700101") (.ok none)
    |>.step false .now (100 : Int)
    |>.step false (.createPartition "19700101") (.ok ())
    |>.step false (.indexPartition "19700101") (.ok ())
    |>.step false (.indexPartition "19700101") (.ok ())
    |>.step false (.registerPartition "19700101") (.done ())
    |>.step false (.insertEvent "19700101" (eventAt 0 99)) (.done 1) rfl
      (fun i l hl _ hin => by cases i <;> cases hl; exact absurd hin (by decide))
    |>.step true (.maxNID "19700102") (.ok none)
    |>.step false .now (100 : Int)
    |>.step false (.createPartition "19700102") (.ok ())
    |>.step false (.indexPartition "19700102") (.ok ())
    |>.step false (.indexPartition "19700102") (.ok ())
    |>.step false (.registerPartition "19700102") (.done ())
    |>.step false (.insertEvent "19700102" (eventAt 0 101)) (.done 2) rfl
      (fun i l hl _ hin => by cases i <;> cases hl; exact absurd hin (by decide))
    |>.step true (.listPartitions "ws" 0) (.ok ["19700101", "19700102"])
    |>.step true (.maxNID "19700101") (.ok (some 1))
    |>.step true (.selectEvents "19700101" "ws" 0 10) (.ok [eventAt 1 99])
    |>.step true (.maxNID "19700102") (.ok (some 2))
    |>.step true (.selectEvents "19700102" "ws" 0 10) (.ok [eventAt 2 101])
  have hconsumer : midnight 2 true = consume twoDayTexts "ws" 10 2 0 [] 0 := rfl
  exact ⟨_, run, rfl, (consumer_sees_log logInv_twoDays hconsumer run rfl).1⟩

end Contenox.Events
