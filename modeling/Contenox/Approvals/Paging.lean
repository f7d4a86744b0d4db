/-
# Paging through the asks and the checkpoints

Both listings show the rows created before a cursor, newest first and then by descending id, and a
client passes the `created_at` of the last row it was shown as the next cursor.  The cursor does not
name the id, so a page that ends between two rows of one instant loses the second
(`tie_is_skipped`); `paging_complete_iff` says that this is the only loss.
-/
import Contenox.Lib.Paging
import Contenox.Approvals.Store

namespace Contenox.Approvals

open Lib.Paging

variable {α : Type}

/-- `ListHITLApprovals`, as the database answers it: `WHERE state = $1 AND created_at < $2`. -/
def listHITLApprovals (t : List HITLApproval) (state : HITLApprovalState) (cursor : Time)
    (limit : Nat) : List HITLApproval :=
  let limit := if limit = 0 then maxLimit else limit
  (below (·.createdAt) (·.id) (t.filter (·.state = state)) cursor).take limit

def errLimitParamExceeded : String := "limit exceeds maximum allowed value"

/-- What both listings do before they ask the database: without a cursor the time of the call is
taken, and a limit that is not positive is the greatest one (`query`'s 0). -/
def listFrom (query : Time → Nat → List α) (now : Time) (limit : Int)
    (createdAtCursor : Option Time) : Except String (List α) :=
  if limit > maxLimit then .error errLimitParamExceeded
  else .ok (query (createdAtCursor.getD now) limit.toNat)

/-- With every page size the store allows, a client is shown each of the rows once. -/
def ShowsEach (createdAt : α → Time) (query : Time → Nat → List α) (now : Time)
    (cursor : Option Time) (rows : List α) : Prop :=
  ∀ limit : Int, limit ≤ maxLimit → ∃ fuel shown,
    follow createdAt (listFrom query now limit) fuel cursor = some shown ∧ shown.Perm rows

/-- The rows are shown once each just when no two of them are of one instant. -/
theorem showsEach_iff {createdAt : α → Time} {id : α → String} {rows : List α}
    {query : Time → Nat → List α}
    (hquery : ∀ c n, query c n = (below createdAt id rows c).take (if n = 0 then maxLimit else n))
    (now : Time) (cursor : Option Time) :
    ShowsEach createdAt query now cursor (rows.filter fun a => createdAt a < cursor.getD now) ↔
      ((rows.filter fun a => createdAt a < cursor.getD now).map createdAt).Nodup := by
  have hlist : ∀ limit : Int, limit ≤ maxLimit → ∀ c, listFrom query now limit c =
      .ok ((below createdAt id rows (c.getD now)).take
        (if limit.toNat = 0 then maxLimit else limit.toNat)) := by
    intro limit hle c
    rw [listFrom, if_neg (by omega), hquery]
  constructor
  · intro h
    obtain ⟨fuel, shown, hshown, hperm⟩ := h 1 (by decide)
    -- a page of one row shows no key twice
    have hdesc := (follow_desc (hlist 1 (by decide)) (fun c' _ => ?_) hshown).1
    · refine (hperm.map createdAt).nodup_iff.mp (List.pairwise_map.mpr (hdesc.imp fun hlt heq => ?_))
      simp [heq] at hlt
    · cases below createdAt id rows c' with
      | nil => exact .nil
      | cons a l => exact List.pairwise_singleton _ _
  · intro hnd limit hle
    have hdesc : ∀ c' ≤ cursor.getD now, Desc createdAt (below createdAt id rows c') := by
      intro c' hc'
      refine desc_below (hnd.sublist ((List.monotone_filter_right rows fun a ha => ?_).map _))
      rw [decide_eq_true_eq] at ha ⊢
      exact Nat.lt_of_lt_of_le ha hc'
    have hpos : 0 < if limit.toNat = 0 then maxLimit else limit.toNat := by
      split
      · decide
      · omega
    obtain ⟨shown, hshown, hall⟩ := follow_all (hlist limit hle) hpos hdesc (Nat.lt_succ_self _)
    obtain ⟨honce, hsome⟩ := follow_desc (hlist limit hle)
      (fun c' hc' => (hdesc c' hc').sublist (List.take_sublist _ _)) hshown
    refine ⟨_, shown, hshown, (List.perm_ext_iff_of_nodup honce.nodup hnd.of_map).mpr fun a => ?_⟩
    rw [List.mem_filter, decide_eq_true_eq]
    exact ⟨hsome a, fun ha => hall a ha.1 ha.2⟩

/-- **Every row is shown once, whatever the page size, just when no two are of one instant.** -/
theorem paging_complete_iff (now : Time) (cursor : Option Time) (t : List HITLApproval)
    (state : HITLApprovalState) (checkpoints : List ChainCheckpoint) :
    let asks := (t.filter (·.state = state)).filter fun a => a.createdAt < cursor.getD now
    let suspended := checkpoints.filter fun cp => cp.createdAt < cursor.getD now
    (ShowsEach (·.createdAt) (listHITLApprovals t state) now cursor asks ↔
        (asks.map (·.createdAt)).Nodup) ∧
      (ShowsEach (·.createdAt) (listChainCheckpoints checkpoints) now cursor suspended ↔
        (suspended.map (·.createdAt)).Nodup) := by
  have hcheckpoints (c : Time) (n : Nat) : listChainCheckpoints checkpoints c n =
      (below (·.createdAt) (·.id) checkpoints c).take (if n = 0 then maxLimit else n) := rfl
  exact ⟨showsEach_iff (fun _ _ => rfl) now cursor, showsEach_iff hcheckpoints now cursor⟩

/-- Two rows of one instant, pages of one row: the second is never shown. -/
theorem tie_is_skipped :
    let row (id : String) : ChainCheckpoint := ⟨id, none, none, 5, 5⟩
    follow (·.createdAt) (listFrom (listChainCheckpoints [row "a", row "b"]) 9 1) 2 none =
      some [row "b"] := by
  decide

end Contenox.Approvals
