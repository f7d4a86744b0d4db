/-
# The eviction budget of a served window

`DeriveEvictionBudget` splits the window of a served model into the leading tokens that stay hot
(the sinks), the recent ones and the hot budget, all in whole blocks.  The integers are unbounded:
with four blocks in a machine-sized window no sum or product below leaves it.

In blocks, of `k` that fit in the window the sinks take at most `k / 16 + 1` and the recent tokens
at most `k / 4 + 1`; the branch that corrects the hot budget is never taken.
-/
import Mathlib.Algebra.Order.Ring.Int
import Mathlib.Algebra.Order.Ring.Unbundled.Basic

namespace Contenox.Residency

structure EvictionBudget where
  sinkTokens : Int
  recentTokens : Int
  maxTokens : Int
  deriving DecidableEq, Repr

def alignUp (n block : Int) : Int :=
  if block ≤ 1 then max n 1 else max ((n + block - 1).tdiv block * block) block

def alignDown (n block : Int) : Int :=
  if block ≤ 1 then n else n.tdiv block * block

/-- `DeriveEvictionBudget`. -/
def deriveEvictionBudget (windowTokens slidingWindowTokens blockSize : Int) : EvictionBudget :=
  let windowTokens :=
    if 0 < slidingWindowTokens ∧ (windowTokens ≤ 0 ∨ slidingWindowTokens < windowTokens) then
      slidingWindowTokens
    else windowTokens
  let blockSize := if blockSize < 1 then 1 else blockSize
  if windowTokens < 4 * blockSize then ⟨0, windowTokens, windowTokens⟩
  else
    let sinks := alignUp (windowTokens.tdiv 16) blockSize
    let recent := alignUp (windowTokens.tdiv 4) blockSize
    let maxTokens := alignDown windowTokens blockSize
    ⟨sinks, recent, if maxTokens ≤ sinks + recent then sinks + recent + blockSize else maxTokens⟩

/-- `e` is the smaller positive one of a window and a sliding window. -/
structure Effective (window sliding e : Int) : Prop where
  positive : 0 < e
  one : e = window ∨ e = sliding
  window : 0 < window → e ≤ window
  sliding : 0 < sliding → e ≤ sliding

variable {n block e : Int}

theorem alignDown_eq (hn : 0 ≤ n) (hb : 1 ≤ block) : alignDown n block = n / block * block := by
  unfold alignDown
  split
  next h => rw [Int.le_antisymm h hb, Int.ediv_one, Int.mul_one]
  next => rw [Int.tdiv_eq_ediv_of_nonneg hn]

/-- Rounding up, in whole blocks: at least one, and at most one more than fit. -/
theorem alignUp_eq (hn : 0 ≤ n) (hb : 1 ≤ block) :
    ∃ k, alignUp n block = k * block ∧ 1 ≤ k ∧ k ≤ n / block + 1 := by
  have hnonneg : 0 ≤ n / block := Int.ediv_nonneg hn (by omega)
  unfold alignUp
  split
  next h =>
    obtain rfl := Int.le_antisymm h hb
    exact ⟨max n 1, by omega, by omega, by omega⟩
  next =>
    have hup : (n + block - 1) / block ≤ (n + block) / block := Int.ediv_le_ediv hb (by omega)
    rw [Int.add_ediv_of_dvd_right (Int.dvd_refl _), Int.ediv_self (by omega)] at hup
    refine ⟨max ((n + block - 1) / block) 1, ?_, by omega, by omega⟩
    rw [Int.tdiv_eq_ediv_of_nonneg (by omega), max_mul_of_nonneg _ _ (by omega), Int.one_mul]

/-- A share of the window that is rounded up. -/
theorem alignUp_share {d : Int} (hd : 0 ≤ d) (he : 0 ≤ e) (hb : 1 ≤ block) :
    ∃ k, alignUp (e.tdiv d) block = k * block ∧ 1 ≤ k ∧ k ≤ e / block / d + 1 := by
  have hswap : e / block / d = e / d / block := by
    rw [Int.ediv_ediv_of_nonneg (by omega), Int.mul_comm, Int.ediv_ediv_of_nonneg hd]
  rw [hswap, Int.tdiv_eq_ediv_of_nonneg he]
  exact alignUp_eq (Int.ediv_nonneg he hd) hb

/-- **A window of at least four blocks is split into whole blocks that fit it.** -/
theorem derived_budget_fits {window sliding blockSize : Int}
    (he : Effective window sliding e) (hfour : 4 * max blockSize 1 ≤ e) :
    let budget := deriveEvictionBudget window sliding blockSize
    (∀ tokens ∈ [budget.sinkTokens, budget.recentTokens, budget.maxTokens],
      0 < tokens ∧ max blockSize 1 ∣ tokens) ∧
    budget.sinkTokens + budget.recentTokens + max blockSize 1 ≤ budget.maxTokens ∧
    budget.maxTokens ≤ e := by
  obtain ⟨hpos, hone, hwindow, hsliding⟩ := he
  have hserved :
      (if 0 < sliding ∧ (window ≤ 0 ∨ sliding < window) then sliding else window) = e := by
    split <;> omega
  have hblock : (if blockSize < 1 then 1 else blockSize) = max blockSize 1 := by
    split <;> omega
  have hb : 1 ≤ max blockSize 1 := Int.le_max_right ..
  generalize max blockSize 1 = block at *
  obtain ⟨s, hs, hs₁, hs₂⟩ := alignUp_share (d := 16) (by decide) hpos.le hb
  obtain ⟨r, hr, hr₁, hr₂⟩ := alignUp_share (d := 4) (by decide) hpos.le hb
  have hk : 4 ≤ e / block := Int.le_ediv_of_mul_le hb hfour
  have hle := Int.ediv_mul_le e (Int.ne_of_gt hb)
  have hroom : (s + r + 1) * block ≤ e / block * block :=
    Int.mul_le_mul_of_nonneg_right (by omega) (by omega)
  have hwhole {m : Int} (h : 1 ≤ m) : 0 < m * block ∧ block ∣ m * block :=
    ⟨Int.mul_pos h hb, Int.dvd_mul_left ..⟩
  rw [Int.add_mul, Int.add_mul, Int.one_mul] at hroom
  simp only [deriveEvictionBudget, hserved, hblock, hs, hr, alignDown_eq hpos.le hb,
    if_neg (Int.not_lt.mpr hfour)]
  rw [if_neg (by omega)]
  refine ⟨?_, hroom, hle⟩
  simp only [List.forall_mem_cons]
  exact ⟨hwhole hs₁, hwhole hr₁, hwhole (by omega), by simp⟩

theorem derived_budget_fits_served :
    (Effective 4100 0 4100 ∧ 4 * max 32 1 ≤ (4100 : Int)) ∧
      deriveEvictionBudget 4100 0 32 = ⟨256, 1056, 4096⟩ ∧
      (deriveEvictionBudget 4100 0 32).maxTokens ≤ 4100 := by
  have he : Effective 4100 0 4100 := ⟨by decide, by decide, by decide, by decide⟩
  exact ⟨⟨he, by decide⟩, by decide, (derived_budget_fits he (by decide)).2.2⟩

end Contenox.Residency
