/-
# Paging by a key

A listing shows the rows below a cursor, those with the greatest keys first, a page at a time.  A
reader who passes the key of the last row of a page as the next cursor sees, after that page, the
rows with strictly smaller keys.  So no key is shown twice as long as no page shows one twice
(`follow_desc`), and no row is missed if no two rows share a key (`follow_all`).
-/
import Contenox.Lib.Increasing

namespace Lib.Paging

open Increasing

variable {α ι ε : Type} [LE ι] (key : α → Nat) (id : α → ι)

/-- `ORDER BY key DESC, id DESC`. -/
def Ahead (a b : α) : Prop := key b < key a ∨ key b = key a ∧ id b ≤ id a

instance [DecidableLE ι] : DecidableRel (Ahead key id) :=
  fun _ _ => inferInstanceAs (Decidable (_ ∨ _ ∧ _))

/-- `WHERE key < cursor ORDER BY key DESC, id DESC`. -/
def below [DecidableLE ι] (rows : List α) (cursor : Nat) : List α :=
  (rows.filter fun a => key a < cursor).insertionSort (Ahead key id)

/-- The rows a reader is shown who follows the listing until a page is empty. -/
def follow (list : Option Nat → Except ε (List α)) : Nat → Option Nat → Option (List α)
  | 0, _ => none
  | fuel + 1, cursor =>
    match list cursor with
    | .error _ => none
    | .ok rows =>
      match rows.getLast? with
      | none => some []
      | some last => (follow list fuel (some (key last))).map (rows ++ ·)

/-- Strictly descending keys. -/
abbrev Desc (l : List α) : Prop := Inc (fun a => -(key a : Int)) l

variable {key id} [DecidableLE ι] {rows : List α} {a : α}

theorem mem_below {c : Nat} : a ∈ below key id rows c ↔ a ∈ rows ∧ key a < c := by
  rw [below, List.mem_insertionSort, List.mem_filter, decide_eq_true_eq]

instance [Std.IsLinearPreorder ι] : Std.Total (Ahead key id) where
  total a b := by
    have := Std.le_total (a := id a) (b := id b)
    grind [Ahead]

instance [Std.IsLinearPreorder ι] : IsTrans α (Ahead key id) where
  trans a b c := by grind [Ahead, Std.le_trans]

theorem desc_below [Std.IsLinearPreorder ι] {c : Nat}
    (hnd : ((rows.filter fun a => key a < c).map key).Nodup) : Desc key (below key id rows c) := by
  have hsorted := List.pairwise_insertionSort (Ahead key id) (rows.filter fun a => key a < c)
  have hkeys := ((List.perm_insertionSort (Ahead key id) _).map key).nodup_iff.mpr hnd
  refine (hsorted.and (List.pairwise_map.mp hkeys)).imp fun {a b} ⟨hle, hne⟩ => ?_
  rcases hle with hlt | ⟨heq, -⟩
  · exact Int.neg_lt_neg (Int.ofNat_lt.mpr hlt)
  · exact absurd heq.symm hne

variable {n now fuel : Nat} {list : Option Nat → Except ε (List α)} {c : Option Nat}
  (hlist : ∀ c, list c = .ok ((below key id rows (c.getD now)).take n))

include hlist

theorem follow_desc (hpage : ∀ c' ≤ c.getD now, Desc key ((below key id rows c').take n))
    {shown : List α} (h : follow key list fuel c = some shown) :
    Desc key shown ∧ ∀ a ∈ shown, a ∈ rows ∧ key a < c.getD now := by
  induction fuel generalizing c shown with
  | zero => cases h
  | succ fuel ih =>
    simp only [follow, hlist] at h
    cases hlast : ((below key id rows (c.getD now)).take n).getLast? with
    | none =>
      rw [hlast] at h
      cases h
      exact ⟨.nil, nofun⟩
    | some last =>
      rw [hlast, Option.map_eq_some_iff] at h
      obtain ⟨rest, hrest, rfl⟩ := h
      have hsome : ∀ a ∈ (below key id rows (c.getD now)).take n, a ∈ rows ∧ key a < c.getD now :=
        fun a ha => mem_below.mp (List.mem_of_mem_take ha)
      have hlt := (hsome last (List.mem_of_getLast? hlast)).2
      obtain ⟨hdesc, hless⟩ := ih (c := some (key last))
        (fun c' hc' => hpage c' (Nat.le_trans hc' (Nat.le_of_lt hlt))) hrest
      have hmine := hpage _ (Nat.le_refl _)
      refine ⟨hmine.append hdesc fun a ha b hb => ?_, List.forall_mem_append.mpr ⟨hsome,
        fun a ha => ⟨(hless a ha).1, Nat.lt_trans (hless a ha).2 hlt⟩⟩⟩
      -- the last row of a page has its least key
      have hleast := hmine.le_getLast (List.ne_nil_of_mem ha) ha
      rw [List.getLast_of_getLast?_eq_some hlast] at hleast
      have hb := (hless b hb).2
      simp only [Option.getD_some] at hb
      omega

theorem follow_all (hn : 0 < n) (hdesc : ∀ c' ≤ c.getD now, Desc key (below key id rows c'))
    (hfuel : c.getD now < fuel) : ∃ shown, follow key list fuel c = some shown ∧
      ∀ a ∈ rows, key a < c.getD now → a ∈ shown := by
  induction fuel generalizing c with
  | zero => omega
  | succ fuel ih =>
    simp only [follow, hlist]
    cases hlast : ((below key id rows (c.getD now)).take n).getLast? with
    | none =>
      refine ⟨[], rfl, fun a ha hlt => ?_⟩
      have hempty := List.take_eq_nil_iff.mp (List.getLast?_eq_none_iff.mp hlast)
      rw [← hempty.resolve_left (by omega)]
      exact mem_below.mpr ⟨ha, hlt⟩
    | some last =>
      have hmem := List.mem_of_getLast? hlast
      have hlt := (mem_below.mp (List.mem_of_mem_take hmem)).2
      obtain ⟨rest, hrest, hall⟩ := ih (c := some (key last))
        (fun c' hc' => hdesc c' (Nat.le_trans hc' (Nat.le_of_lt hlt))) (by
          simp only [Option.getD_some]
          omega)
      refine ⟨_, Option.map_eq_some_iff.mpr ⟨rest, hrest, rfl⟩, fun a ha hlt => ?_⟩
      by_cases hless : key a < key last
      · exact List.mem_append_right _ (hall a ha hless)
      -- what is not below the last row of the page is on the page
      refine List.mem_append_left _ ((hdesc _ (Nat.le_refl _)).mem_take_of_le hmem
        (mem_below.mpr ⟨ha, hlt⟩) ?_)
      omega

end Lib.Paging
