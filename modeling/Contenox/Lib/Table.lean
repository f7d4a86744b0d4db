/-
# Tables with a primary key

A table is the list of its rows, and `key` reads a row's primary key.  The five statements
are the ones a store needs: look a row up, insert it if its key is free, rewrite the row of a
key, rewrite it only if it meets a condition, delete it.  `updateWhere` is the conditional
UPDATE: it answers `none` when no row was affected, which is how a caller of a
compare-and-set learns that it lost.

Every lemma says what a statement does to a LOOKUP, so that later proofs never look at the
list.
-/
import Mathlib.Data.List.Nodup

namespace Lib
namespace Table

variable {ρ κ : Type} [DecidableEq κ] (key : ρ → κ)

/-- The row of a key. -/
def get (t : List ρ) (k : κ) : Option ρ := t.find? fun r => key r = k

/-- INSERT: refused when the key is taken. -/
def insert (t : List ρ) (r : ρ) : Option (List ρ) :=
  if (get key t (key r)).isSome then none else some (t ++ [r])

/-- UPDATE ... WHERE key = `k`. -/
def update (t : List ρ) (k : κ) (f : ρ → ρ) : List ρ :=
  t.map fun r => if key r = k then f r else r

/-- UPDATE ... WHERE key = `k` AND `p`; `none` when no row was affected. -/
def updateWhere (t : List ρ) (k : κ) (p : ρ → Bool) (f : ρ → ρ) : Option (List ρ) :=
  match get key t k with
  | some r => if p r then some (update key t k f) else none
  | none => none

/-- DELETE ... WHERE key = `k`. -/
def delete (t : List ρ) (k : κ) : List ρ := t.filter fun r => key r ≠ k

variable {key} {t t' : List ρ} {k k' : κ} {r : ρ} {f : ρ → ρ}

@[simp] theorem get_nil : get key [] k = none := rfl

theorem key_of_get (h : get key t k = some r) : key r = k := by
  simpa using List.find?_some h

theorem mem_of_get (h : get key t k = some r) : r ∈ t := List.mem_of_find?_eq_some h

theorem get_isSome_of_mem (h : r ∈ t) : ∃ r', get key t (key r) = some r' := by
  rw [← Option.isSome_iff_exists, get, List.find?_isSome]
  exact ⟨r, h, by simp⟩

theorem get_update (hf : ∀ r, key (f r) = key r) :
    get key (update key t k f) k' = if k' = k then (get key t k).map f else get key t k' := by
  have hcomp : (fun r => decide (key r = k')) ∘ (fun r => if key r = k then f r else r) =
      fun r => decide (key r = k') := by
    funext r
    by_cases hr : key r = k <;> simp [hr, hf]
  unfold get update
  rw [List.find?_map, hcomp]
  by_cases hk : k' = k
  · subst hk
    cases hfind : t.find? fun r => decide (key r = k') with
    | none => simp
    | some r => simpa using fun hne => absurd (by simpa using List.find?_some hfind) hne
  · cases hfind : t.find? fun r => decide (key r = k') with
    | none => simp [hk]
    | some r =>
      have hr : key r = k' := by simpa using List.find?_some hfind
      simp [hk, hr]

theorem insert_cases (h : insert key t r = some t') : get key t (key r) = none ∧ t' = t ++ [r] := by
  unfold insert at h
  split at h
  · cases h
  · next hfree => exact ⟨by simpa using hfree, (Option.some.inj h).symm⟩

theorem insert_eq_some (h : insert key t r = some t') :
    get key t (key r) = none ∧ ∀ k, get key t' k = if k = key r then some r else get key t k := by
  obtain ⟨hnone, rfl⟩ := insert_cases h
  refine ⟨hnone, fun k => ?_⟩
  unfold get at hnone ⊢
  rw [List.find?_append]
  by_cases hk : k = key r
  · subst hk
    simp [hnone]
  · simp [hk, Ne.symm hk]

theorem mem_insert (h : insert key t r = some t') {x : ρ} : x ∈ t' ↔ x ∈ t ∨ x = r := by
  obtain ⟨-, rfl⟩ := insert_cases h
  simp

theorem updateWhere_eq_some {p : ρ → Bool} (h : updateWhere key t k p f = some t') :
    ∃ r, get key t k = some r ∧ p r = true ∧ t' = update key t k f := by
  unfold updateWhere at h
  cases hg : get key t k with
  | none => simp [hg] at h
  | some r =>
    cases hp : p r with
    | false => simp [hg, hp] at h
    | true => exact ⟨r, rfl, hp, by simpa [hg, hp] using h.symm⟩

theorem updateWhere_eq_none {p : ρ → Bool} (h : updateWhere key t k p f = none)
    (hg : get key t k = some r) : p r = false := by
  unfold updateWhere at h
  cases hp : p r with
  | false => rfl
  | true => simp [hg, hp] at h

theorem mem_update {x : ρ} (h : x ∈ update key t k f) :
    (x ∈ t ∧ key x ≠ k) ∨ ∃ r ∈ t, key r = k ∧ x = f r := by
  obtain ⟨r, hr, rfl⟩ := List.mem_map.mp h
  by_cases hk : key r = k
  · exact .inr ⟨r, hr, hk, by simp [hk]⟩
  · exact .inl ⟨by simpa [hk] using hr, by simp [hk]⟩

theorem get_delete : get key (delete key t k) k' = if k' = k then none else get key t k' := by
  rw [get, delete, List.find?_filter]
  split
  · next h => simp [h]
  · next h =>
    congr 1
    funext r
    by_cases hr : key r = k' <;> simp [hr, h]

/-! ## Lookups that differ at one key -/

section

variable {g g' : κ → Option ρ} {x : ρ}

/-- What is found after a row was put is that row or an old one. -/
theorem of_put (h : ∀ k', g' k' = if k' = k then some r else g k') (hx : g' k' = some x) :
    (k' = k ∧ x = r) ∨ (k' ≠ k ∧ g k' = some x) := by
  rw [h] at hx
  split at hx
  · exact .inl ⟨‹_›, (Option.some.inj hx).symm⟩
  · exact .inr ⟨‹_›, hx⟩

theorem put_old (h : ∀ k', g' k' = if k' = k then some r else g k') (hnone : g k = none)
    (hx : g k' = some x) : g' k' = some x := by
  rw [h, if_neg, hx]
  rintro rfl
  cases hnone.symm.trans hx

theorem of_drop (h : ∀ k', g' k' = if k' = k then none else g k') (hx : g' k' = some x) :
    k' ≠ k ∧ g k' = some x := by
  rw [h] at hx
  split at hx
  · cases hx
  · exact ⟨‹_›, hx⟩

end

/-! ## Counting rows, where no two have the same key -/

theorem get_of_mem (hnd : (t.map key).Nodup) (h : r ∈ t) : get key t (key r) = some r := by
  obtain ⟨r', hr'⟩ : ∃ r', get key t (key r) = some r' := get_isSome_of_mem h
  rw [hr', List.inj_on_of_nodup_map hnd (mem_of_get hr') h (key_of_get hr')]

theorem nodup_insert (hnd : (t.map key).Nodup) (h : insert key t r = some t') :
    (t'.map key).Nodup := by
  obtain ⟨hfree, rfl⟩ := insert_cases h
  rw [List.map_append, List.map_singleton, ← List.concat_eq_append]
  refine hnd.concat fun hmem => ?_
  obtain ⟨x, hx, hkey⟩ := List.mem_map.mp hmem
  obtain ⟨y, hy⟩ : ∃ y, get key t (key x) = some y := get_isSome_of_mem hx
  rw [hkey, hfree] at hy
  cases hy

theorem map_key_update (hf : ∀ r, key (f r) = key r) : (update key t k f).map key = t.map key := by
  unfold update
  rw [List.map_map]
  refine List.map_congr_left fun x _ => ?_
  simp only [Function.comp]
  split
  · exact hf x
  · rfl

theorem nodup_delete (hnd : (t.map key).Nodup) : ((delete key t k).map key).Nodup :=
  hnd.sublist (List.filter_sublist.map key)

/-- Rewriting the row of a key adds at most one to a count. -/
theorem countP_update_le (hnd : (t.map key).Nodup) (p : ρ → Bool) :
    (update key t k f).countP p ≤ t.countP p + 1 := by
  induction t with
  | nil => simp [update]
  | cons a t ih =>
    rw [List.map_cons, List.nodup_cons] at hnd
    have ih := ih hnd.2
    rw [update, List.map_cons, List.countP_cons, List.countP_cons]
    by_cases ha : key a = k
    · -- the rest has no row of that key
      have hrest : t.map (fun r => if key r = k then f r else r) = t := by
        refine (List.map_congr_left fun x hx => ?_).trans (List.map_id t)
        rw [if_neg]
        · rfl
        · rintro rfl
          exact hnd.1 (ha ▸ List.mem_map_of_mem hx)
      rw [hrest]
      split <;> split <;> omega
    · rw [if_neg ha]
      unfold update at ih
      omega

end Table

/-! ## Association lists -/

namespace Assoc

variable {α β : Type} [DecidableEq α] [BEq α] [LawfulBEq α] (l : List (α × β))

theorem lookup_filter_ne (k k' : α) :
    (l.filter fun e => e.1 ≠ k).lookup k' = if k' = k then none else l.lookup k' := by
  induction l with
  | nil => simp
  | cons e l ih =>
    rw [List.filter_cons, List.lookup_cons]
    by_cases he : e.1 = k
    · rw [if_neg (by simpa using he), ih]
      split
      · rfl
      · next hne => rw [beq_false_of_ne (by rwa [he])]
    · rw [if_pos (by simpa using he), List.lookup_cons, ih]
      cases hb : k' == e.1 with
      | true =>
        have hne : k' ≠ k := eq_of_beq hb ▸ he
        exact (if_neg hne).symm
      | false => rfl

/-- A key written in front of what is left without it. -/
theorem lookup_cons_filter (k k' : α) (v : β) :
    ((k, v) :: l.filter fun e => e.1 ≠ k).lookup k' = if k' = k then some v else l.lookup k' := by
  rw [List.lookup_cons, lookup_filter_ne]
  by_cases h : k' = k
  · simp [h]
  · rw [beq_false_of_ne h, if_neg h, if_neg h]

/-- A key written behind what is left without it. -/
theorem lookup_filter_append (k k' : α) (v : β) :
    (l.filter (fun e => e.1 ≠ k) ++ [(k, v)]).lookup k' = if k' = k then some v else l.lookup k' := by
  rw [List.lookup_append, lookup_filter_ne]
  by_cases h : k' = k
  · simp [h]
  · rw [if_neg h, if_neg h, List.lookup_cons, beq_false_of_ne h]
    exact Option.or_none

end Assoc
end Lib
