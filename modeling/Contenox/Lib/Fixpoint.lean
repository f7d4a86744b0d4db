/-
# Loops that come to an end

A loop that makes passes over a state until one of them reports no change.  It is written with a
bound on the number of passes; `iterate_isSome` says when the bound is never met: a measure that
no state exceeds and that every pass with a change makes larger.

And a step function that goes on or ends: a rank that every step makes smaller bounds how long it
goes on (`endsWithin_of_rank`).
-/
import Mathlib.Data.Finset.Card

namespace Lib.Fixpoint

variable {α : Type*} {pass : α → α × Bool} {P : α → Prop}

/-- Passes until one reports no change, at most `fuel` of them. -/
def iterate (pass : α → α × Bool) : Nat → α → Option α
  | 0, _ => none
  | fuel + 1, a => if (pass a).2 then iterate pass fuel (pass a).1 else some (pass a).1

variable {fuel : Nat} {a : α}

/-- The result comes from a last pass that reported no change. -/
theorem iterate_spec (hP : ∀ a, P a → P (pass a).1) {a' : α} (ha : P a)
    (h : iterate pass fuel a = some a') : ∃ b, P b ∧ (pass b).2 = false ∧ a' = (pass b).1 := by
  induction fuel generalizing a with
  | zero => simp [iterate] at h
  | succ fuel ih =>
    rw [iterate] at h
    split at h
    · exact ih (hP a ha) h
    next hflag =>
    cases h
    exact ⟨a, ha, by simpa using hflag, rfl⟩

/-- A measure that is bounded and grows with every change bounds the number of passes. -/
theorem iterate_isSome (hP : ∀ a, P a → P (pass a).1) {μ : α → Nat} {bound : Nat}
    (hbound : ∀ a, P a → μ a ≤ bound) (hgrow : ∀ a, P a → (pass a).2 = true → μ a < μ (pass a).1)
    (ha : P a) (hfuel : bound - μ a < fuel) : ∃ a', iterate pass fuel a = some a' := by
  induction fuel generalizing a with
  | zero => exact absurd hfuel (by omega)
  | succ fuel ih =>
    rw [iterate]
    split
    · next hflag =>
      have hlt := hgrow a ha hflag
      have hle := hbound _ (hP a ha)
      exact ih (hP a ha) (by omega)
    · exact ⟨_, rfl⟩

/-- A pass that visits one thing after another and reports no change has made none at any of
them. -/
theorem foldl_unchanged {β : Type*} {visit : α × Bool → β → α × Bool} {Q : β → α → Prop}
    (hvisit : ∀ w b, (visit w b).2 = false → visit w b = w ∧ Q b w.1) {l : List β} {w : α × Bool}
    (h : (l.foldl visit w).2 = false) : l.foldl visit w = w ∧ ∀ b ∈ l, Q b w.1 := by
  induction l generalizing w with
  | nil => exact ⟨rfl, by simp⟩
  | cons b l ih =>
    rw [List.foldl_cons] at h ⊢
    obtain ⟨heq, hall⟩ := ih h
    rw [heq] at h
    obtain ⟨hb, hholds⟩ := hvisit w b h
    rw [hb] at heq hall ⊢
    exact ⟨heq, List.forall_mem_cons.mpr ⟨hholds, hall⟩⟩

/-! ## Steps until the end -/

/-- From `s` at most `n` steps go on. -/
def EndsWithin (next : α → Option α) : Nat → α → Prop
  | 0, s => next s = none
  | n + 1, s => ∀ s', next s = some s' → EndsWithin next n s'

/-- A rank that every step makes smaller bounds the steps; `R` says what ranks a state has. -/
theorem endsWithin_of_rank {next : α → Option α} {R : α → Nat → Prop}
    (hstep : ∀ s m s', R s m → next s = some s' → ∃ m' < m, R s' m') {n m : Nat} {s : α}
    (hs : R s m) (hn : m ≤ n) : EndsWithin next n s := by
  induction n generalizing s m with
  | zero =>
    cases hnext : next s with
    | none => exact hnext
    | some s' =>
      obtain ⟨m', hlt, -⟩ := hstep s m s' hs hnext
      omega
  | succ n ih =>
    intro s' hnext
    obtain ⟨m', hlt, hs'⟩ := hstep s m s' hs hnext
    exact ih hs' (by omega)

end Lib.Fixpoint
