/-
# What was completed keeps its content

`SetPlan` compares a revision with the plan it replaces, and with none before that one.  So an id
that a revision drops, or puts back in motion, is free again: the next revision may use it for other
work (`dropped_entry_rewritten`).  Nor are the entries of one plan compared with each other.

Where every revision carries the completed ids on, each with one content, what was completed once
keeps its content (`completed_content_kept`).
-/
import Contenox.Missions.Interleavings

namespace Contenox.Missions

open Relation (ReflTransGen)

variable {quote : String → String} {m m' : Mission} {prev next : List PlanEntry}
  {x content : String}

/-- An accepted `SetPlan`, from the record it read to the one it wrote: every entry has been given an
id, `validatePlan` passes, and so does the judgement. -/
def Accepts (quote : String → String) (m m' : Mission) : Prop :=
  ∃ entries explanation, (∀ e ∈ entries, e.id ≠ "") ∧ validatePlan quote entries = .ok () ∧
    Judged (judgeSetPlan quote entries explanation) m m'

/-- All entries with the id of a completed one say the same. -/
abbrev OneContent (entries : List PlanEntry) : Prop :=
  ∀ e ∈ entries, e.status = .completed → ∀ e' ∈ entries, e'.id = e.id → e'.content = e.content

/-- The condition on a revision: what was completed is still there and completed. -/
structure Carries (prev next : List PlanEntry) : Prop where
  completed : ∀ e ∈ prev, e.status = .completed → ∃ e' ∈ next, e'.id = e.id ∧ e'.status = .completed
  one : OneContent next

/-- An accepted `SetPlan` that meets the condition. -/
def Revises (quote : String → String) (m m' : Mission) : Prop :=
  Accepts quote m m' ∧ Carries m.plan.entries m'.plan.entries

/-- An id is completed, with this content. -/
structure Settled (entries : List PlanEntry) (x content : String) : Prop where
  completed : ∃ e ∈ entries, e.id = x ∧ e.status = .completed
  same : ∀ e ∈ entries, e.id = x → e.content = content

/-- What the guard lets through of an id that is settled. -/
theorem Settled.content_eq (h : Settled prev x content)
    (hok : validateCompletedImmutable quote prev next = .ok ()) {a : PlanEntry} (ha : a ∈ next)
    (hne : a.id ≠ "") (hid : a.id = x) : a.content = content := by
  obtain ⟨e, he, rfl, hdone⟩ := h.completed
  unfold validateCompletedImmutable at hok
  split at hok
  · cases hok
  rename_i hnone
  have hguard := List.find?_eq_none.mp hnone a ha
  -- the guard looks at the last completed entry of the id, and all of them say the same
  cases hp : prev.reverse.find? fun p => p.status = .completed ∧ p.id = a.id with
  | none => exact absurd (List.find?_eq_none.mp hp e (List.mem_reverse.mpr he)) (by simp [hdone, hid])
  | some p =>
    have hmem := List.mem_reverse.mp (List.mem_of_find?_eq_some hp)
    have hpid := List.find?_some hp
    simp only [decide_eq_true_eq] at hpid
    rw [← h.same p hmem (hpid.2.trans hid)]
    rw [hp] at hguard
    simpa [hne] using hguard

/-- The step lemma. -/
theorem Settled.revises (h : Settled m.plan.entries x content) (hrev : Revises quote m m') :
    Settled m'.plan.entries x content := by
  obtain ⟨⟨entries, explanation, hids, -, hjudged⟩, hcarries⟩ := hrev
  obtain ⟨e, he, hid, hdone⟩ := h.completed
  obtain ⟨e', he', hid', hdone'⟩ := hcarries.completed e he hdone
  refine ⟨⟨e', he', hid'.trans hid, hdone'⟩, fun a ha haid => ?_⟩
  unfold Judged judgeSetPlan at hjudged
  split at hjudged
  · rcases hjudged with hjudged | ⟨f, now, hjudged, -⟩ <;> cases hjudged
  · rename_i hok
    obtain hjudged | ⟨f, now, hjudged, rfl⟩ := hjudged <;> cases hjudged
    exact h.content_eq hok ha (hids a ha) haid

/-- The run lemma. -/
theorem Settled.run (h : Settled m.plan.entries x content) (hrun : ReflTransGen (Revises quote) m m') :
    Settled m'.plan.entries x content := by
  induction hrun with
  | refl => exact h
  | tail _ hrev ih => exact ih.revises hrev

/-- **Completed work keeps its content**, over every sequence of revisions that carry it on. -/
theorem completed_content_kept (hone : OneContent m.plan.entries)
    (hrun : ReflTransGen (Revises quote) m m') {e e' : PlanEntry} (he : e ∈ m.plan.entries)
    (hdone : e.status = .completed) (he' : e' ∈ m'.plan.entries) (hid : e'.id = e.id) :
    e'.content = e.content := by
  have hstart : Settled m.plan.entries e.id e.content := ⟨⟨e, he, rfl, hdone⟩, hone e he hdone⟩
  exact (hstart.run hrun).same e' he' hid

def scouted : PlanEntry := ⟨"a", "scout", .completed, .high⟩
def watch : PlanEntry := ⟨"b", "watch", .pending, .high⟩

/-- The patrol with these entries as its next plan. -/
def Mission.planned (m : Mission) (entries : List PlanEntry) : Mission := revisePlan entries "" m 0

theorem completed_content_kept_scouted :
    scouted ∈ ((patrol.planned [scouted]).planned [watch, scouted]).plan.entries ∧
      scouted.content = "scout" := by
  have hrev : Revises id (patrol.planned [scouted])
      ((patrol.planned [scouted]).planned [watch, scouted]) :=
    ⟨⟨[watch, scouted], "", by decide, by rfl, .inr ⟨_, 0, rfl, rfl⟩⟩, by decide, by decide⟩
  have hmem : scouted ∈ ((patrol.planned [scouted]).planned [watch, scouted]).plan.entries :=
    List.mem_cons_of_mem _ List.mem_cons_self
  exact ⟨hmem, completed_content_kept (by decide) (.single hrev) List.mem_cons_self rfl hmem rfl⟩

/-- An entry is completed, dropped, and put back with other content: all three are accepted. -/
theorem dropped_entry_rewritten : ∃ m₁ m₂ m₃, Accepts id patrol m₁ ∧ Accepts id m₁ m₂ ∧
    Accepts id m₂ m₃ ∧ scouted ∈ m₁.plan.entries ∧ scouted.status = .completed ∧
    ∃ e ∈ m₃.plan.entries, e.id = scouted.id ∧ e.content ≠ scouted.content :=
  ⟨patrol.planned [scouted], (patrol.planned [scouted]).planned [watch],
    ((patrol.planned [scouted]).planned [watch]).planned [{ scouted with content := "rest" }],
    ⟨[scouted], "", by decide, by rfl, .inr ⟨_, 0, rfl, rfl⟩⟩,
    ⟨[watch], "", by decide, by rfl, .inr ⟨_, 0, rfl, rfl⟩⟩,
    ⟨[{ scouted with content := "rest" }], "", by decide, by rfl, .inr ⟨_, 0, rfl, rfl⟩⟩,
    List.mem_cons_self, rfl, _, List.mem_cons_self, rfl, by decide⟩

end Contenox.Missions
