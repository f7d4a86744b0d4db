/-
# Lists that increase in a key

A log whose entries carry increasing numbers is determined by what is in it, and so is every part
of it that is cut out by numbers.  That is what the arguments about pages of a log come down to:
two lists of the same entries are the same list, a window followed by the next one is the larger
window, and the first entries of a sorted collection are the least.
-/
import Mathlib.Data.List.Sort
import Mathlib.Data.List.Perm.Lattice

namespace Lib.Increasing

variable {α : Type} (key : α → Int)

def Inc (l : List α) : Prop := l.Pairwise fun a b => key a < key b

variable {key} {l l' : List α} {x y : α} {a b : Int} {n : Nat} (h : Inc key l)

include h

theorem Inc.nodup : l.Nodup := by
  refine List.Pairwise.imp ?_ h
  rintro a b hlt rfl
  exact lt_irrefl _ hlt

theorem Inc.filter (p : α → Bool) : Inc key (l.filter p) :=
  List.Pairwise.filter p h

theorem Inc.sublist (hsub : l'.Sublist l) : Inc key l' := List.Pairwise.sublist hsub h

/-- The entries determine the list. -/
theorem Inc.ext (h' : Inc key l') (hmem : ∀ x, x ∈ l ↔ x ∈ l') : l = l' := by
  have hperm : l.Perm l' := (List.perm_ext_iff_of_nodup h.nodup h'.nodup).mpr hmem
  refine hperm.eq_of_pairwise ?_ h h'
  intro a b _ _ hab hba
  exact absurd (hab.trans hba) (lt_irrefl _)

theorem Inc.key_injective (hx : x ∈ l) (hy : y ∈ l) (heq : key x = key y) : x = y := by
  have hkeys : (l.map key).Nodup := List.pairwise_map.mpr (h.imp fun hlt => hlt.ne)
  exact List.inj_on_of_nodup_map hkeys hx hy heq

theorem Inc.append (h' : Inc key l') (hlt : ∀ x ∈ l, ∀ y ∈ l', key x < key y) : Inc key (l ++ l') :=
  List.pairwise_append.mpr ⟨h, h', hlt⟩

theorem Inc.le_getLast (hne : l ≠ []) (hx : x ∈ l) : key x ≤ key (l.getLast hne) := by
  rw [← List.dropLast_append_getLast hne] at h hx
  rcases List.mem_append.mp hx with hx | hx
  · exact ((List.pairwise_append.mp h).2.2 x hx _ (List.mem_singleton_self _)).le
  · rw [List.mem_singleton.mp hx]

/-- Two parts, one below the other. -/
theorem Inc.filter_append {p q r : α → Prop} [DecidablePred p] [DecidablePred q] [DecidablePred r]
    (hlt : ∀ x y, p x → q y → key x < key y) (hr : ∀ x, r x ↔ p x ∨ q x) :
    l.filter (p ·) ++ l.filter (q ·) = l.filter (r ·) := by
  refine Inc.ext ((h.filter _).append (h.filter _) fun x hx y hy => ?_) (h.filter _) fun x => ?_
  · simp only [List.mem_filter, decide_eq_true_eq] at hx hy
    exact hlt x y hx.2 hy.2
  · simp only [List.mem_append, List.mem_filter, decide_eq_true_eq, hr, and_or_left]

/-- A window and the next one. -/
theorem Inc.window (hab : a ≤ b) :
    l.filter (fun x => key x ≤ a) ++ l.filter (fun x => a < key x ∧ key x ≤ b) =
      l.filter fun x => key x ≤ b :=
  h.filter_append (fun _ _ hx hy => lt_of_le_of_lt hx hy.1) fun _ => by omega

/-- What is below a number comes first. -/
theorem Inc.filter_le_initial (a : Int) : l.filter (fun x => key x ≤ a) <+: l := by
  refine ⟨l.filter fun x => a < key x, ?_⟩
  rw [h.filter_append (r := fun _ => True) (fun _ _ => lt_of_le_of_lt) fun _ => by simp [le_or_gt]]
  simp

omit h

/-- Sorting by a key that no two entries share. -/
theorem inc_insertionSort (hnd : (l.map key).Nodup) :
    Inc key (l.insertionSort fun x y => key x ≤ key y) := by
  have hsorted := List.pairwise_insertionSort (fun x y => key x ≤ key y) l
  have hkeys : ((l.insertionSort fun x y => key x ≤ key y).map key).Nodup :=
    ((List.perm_insertionSort (fun x y => key x ≤ key y) l).map key).nodup_iff.mpr hnd
  have hne := List.pairwise_map.mp hkeys
  exact (hsorted.and hne).imp fun h => lt_of_le_of_ne h.1 h.2

/-- A page is closed downwards. -/
theorem Inc.mem_take_of_le (h : Inc key l) (hx : x ∈ l.take n) (hy : y ∈ l)
    (hle : key y ≤ key x) : y ∈ l.take n := by
  rw [← List.take_append_drop n l] at h hy
  rcases List.mem_append.mp hy with hy | hy
  · exact hy
  · have := (List.pairwise_append.mp h).2.2 x hx y hy
    omega

/-- What did not get onto a page has a full page below it. -/
theorem Inc.mem_take_or_full (h : Inc key l) (hy : y ∈ l) :
    y ∈ l.take n ∨ n ≤ ((l.take n).filter fun x => key x < key y).length := by
  by_cases hmem : y ∈ l.take n
  · exact .inl hmem
  right
  have hdrop : y ∈ l.drop n := by
    rw [← List.take_append_drop n l] at hy
    exact (List.mem_append.mp hy).resolve_left hmem
  have hlong : n ≤ l.length := by
    by_contra hlt
    rw [List.drop_of_length_le (by omega)] at hdrop
    cases hdrop
  have hbelow : ∀ x ∈ l.take n, key x < key y := by
    intro x hx
    rw [← List.take_append_drop n l] at h
    exact (List.pairwise_append.mp h).2.2 x hx y hdrop
  have hall : (l.take n).filter (fun x => key x < key y) = l.take n :=
    List.filter_eq_self.mpr fun x hx => by simpa using hbelow x hx
  rw [hall, List.length_take, Nat.min_eq_left hlong]

/-- What is on a page has less than a page below it. -/
theorem Inc.length_filter_lt_of_mem_take (h : Inc key l) (hx : x ∈ l.take n) :
    (l.filter fun z => key z < key x).length < n := by
  have hsub : l.filter (fun z => key z < key x) = (l.take n).filter fun z => key z < key x := by
    refine Inc.ext (h.filter _) ((h.sublist (List.take_sublist n l)).filter _) fun z => ?_
    simp only [List.mem_filter, decide_eq_true_eq]
    constructor
    · rintro ⟨hz, hlt⟩
      exact ⟨h.mem_take_of_le hx hz hlt.le, hlt⟩
    · rintro ⟨hz, hlt⟩
      exact ⟨List.mem_of_mem_take hz, hlt⟩
  rw [hsub]
  refine lt_of_lt_of_le ?_ (List.length_take_le n l)
  refine List.length_filter_lt_length_iff_exists.mpr ⟨x, hx, by simp⟩

end Lib.Increasing
