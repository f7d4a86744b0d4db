/-
# The approvals table and the checkpoints table

The rows of `hitl_approvals` and `chain_checkpoints`, and what each SQL statement of
`runtimetypes/hitl_approvals.go` and `runtimetypes/checkpoints.go` does to them.  A table is
the list of its rows; `id` is the primary key, so an INSERT of a taken id fails.

Two statements carry the whole protocol, because both are conditional UPDATEs:

* `resolveHITLApproval` writes a verdict only WHERE state = 'pending';
* `claimChainCheckpoint` takes a checkpoint only WHERE it is unclaimed, or claimed too long
  ago.

A statement that matches no row answers `none` (the source's `libdb.ErrNotFound`).

A row's `resolution` is JSON text in the database.  It is kept here as the struct the text
encodes, since every reader decodes it; `ApprovalResolution.encode` is the text, for the one
reader that does not decode: the `LIKE` of the agent bounds.

Columns that no statement or reader below uses (`args_summary`, `diff`, `policy_name`,
`matched_rule`, the attribution set, a checkpoint's payload) are left out.
-/
import Mathlib.Data.List.Sort
import Contenox.Lib.SqlLike
import Contenox.Lib.Table
import Contenox.Policy.Document

namespace Contenox.Approvals

open Hitl (Action)

/-! ## 1. Rows -/

/-- A point in time.  Zero is Go's zero time, which `expires_at` uses for "no deadline". -/
abbrev Time := Nat

/-- The lifecycle of an ask; `pending` is the only state that is not terminal. -/
inductive HITLApprovalState
  | pending
  | approved
  | denied
  | expired
  deriving DecidableEq, Repr

/-- What a resolution records.  The human twins hold a person, the others an agent. -/
structure ApprovalResolution where
  approved : Option Bool := none
  answer : Option String := none
  answeredBy : Option String := none
  answeredByHuman : Option String := none
  decidedBy : Option String := none
  decidedByHuman : Option String := none
  guidance : Option String := none
  deriving DecidableEq, Repr

/-- One durable approval ask. -/
structure HITLApproval where
  id : String
  toolsName : String
  toolName : String
  onTimeout : Option Action
  state : HITLApprovalState
  resolution : Option ApprovalResolution
  missionID : Option String
  createdAt : Time
  expiresAt : Time
  resolvedAt : Option Time
  deriving DecidableEq, Repr

/-- One suspended run, keyed by the approval whose verdict resumes it. -/
structure ChainCheckpoint where
  id : String
  failure : Option String
  claimedAt : Option Time
  createdAt : Time
  updatedAt : Time
  deriving DecidableEq, Repr

/-! ## 2. The text of a resolution -/

/-- Four lower-case hexadecimal digits, as `encoding/json` writes them after a `u`. -/
def hex4 (n : Nat) : List Char :=
  let d := fun k => Nat.digitChar (k % 16)
  [d (n / 4096), d (n / 256), d (n / 16), d n]

/-- One character inside a JSON string, with the escapes of `encoding/json` (HTML escaping
on, which is the default of `json.Marshal`). -/
def escapeChar (c : Char) : List Char :=
  if c = '"' then ['\\', '"']
  else if c = '\\' then ['\\', '\\']
  else if c = '\n' then ['\\', 'n']
  else if c = '\r' then ['\\', 'r']
  else if c = '\t' then ['\\', 't']
  else if c.toNat = 8 then ['\\', 'b']
  else if c.toNat = 12 then ['\\', 'f']
  else if c.toNat < 32 ∨ c = '<' ∨ c = '>' ∨ c = '&' ∨ c.toNat = 0x2028 ∨ c.toNat = 0x2029 then
    '\\' :: 'u' :: hex4 c.toNat
  else [c]

/-- A JSON string literal. -/
def quoteJSON (s : String) : List Char := '"' :: s.toList.flatMap escapeChar ++ ['"']

/-- One `omitempty` member with an already encoded value. -/
def jsonMember (name : String) : Option (List Char) → List (List Char)
  | none => []
  | some v => ['"' :: name.toList ++ '"' :: ':' :: v]

/-- `json.Marshal` of a resolution: the members that are set, in field order. -/
def ApprovalResolution.encode (r : ApprovalResolution) : String :=
  let members :=
    jsonMember "approved" (r.approved.map fun b => (if b then "true" else "false").toList) ++
    jsonMember "answer" (r.answer.map quoteJSON) ++
    jsonMember "answeredBy" (r.answeredBy.map quoteJSON) ++
    jsonMember "answeredByHuman" (r.answeredByHuman.map quoteJSON) ++
    jsonMember "decidedBy" (r.decidedBy.map quoteJSON) ++
    jsonMember "decidedByHuman" (r.decidedByHuman.map quoteJSON) ++
    jsonMember "guidance" (r.guidance.map quoteJSON)
  String.ofList (Char.ofNat 123 :: List.intercalate [','] members ++ [Char.ofNat 125])

/-- SQL `LIKE` with a pattern of the one shape the source uses: `%text%`. -/
def likeContains (text value : String) : Bool :=
  Lib.SqlLike.contains (fun c d => c == d) text.toList value.toList

/-! ## 3. Statements on `hitl_approvals` -/

/-- `MAXLIMIT` of the store. -/
def maxLimit : Nat := 1000

variable (t : List HITLApproval)

/-- SELECT ... WHERE id. -/
def getHITLApproval (id : String) : Option HITLApproval :=
  Lib.Table.get HITLApproval.id t id

/-- INSERT. -/
def createHITLApproval (a : HITLApproval) : Option (List HITLApproval) :=
  Lib.Table.insert HITLApproval.id t a

/-- The columns a verdict sets. -/
def HITLApproval.resolve (st : HITLApprovalState) (res : ApprovalResolution) (at_ : Time)
    (a : HITLApproval) : HITLApproval :=
  { a with state := st, resolution := some res, resolvedAt := some at_ }

/-- UPDATE ... WHERE id AND state = 'pending'. -/
def resolveHITLApproval (id : String) (st : HITLApprovalState)
    (res : ApprovalResolution) (at_ : Time) : Option (List HITLApproval) :=
  Lib.Table.updateWhere HITLApproval.id t id (fun a => a.state = .pending)
    (HITLApproval.resolve st res at_)

/-- The count predicate of an agent-attributed resolution; `resolutionLike` is the text
between the two `%` of the source's pattern. -/
structure AgentAnswerBound where
  missionID : String
  toolsName : String
  toolName : String
  resolutionLike : String
  max : Int
  deriving DecidableEq, Repr

/-- Does a prior row count against the bound?  A NULL resolution is LIKE nothing. -/
def AgentAnswerBound.counts (b : AgentAnswerBound) (prior : HITLApproval) : Bool :=
  prior.missionID = some b.missionID && (b.toolsName = "" || prior.toolsName = b.toolsName) &&
    (b.toolName = "" || prior.toolName = b.toolName) &&
    prior.resolution.any fun r => likeContains b.resolutionLike r.encode

/-- `SELECT COUNT(*)` of the rows that count. -/
def AgentAnswerBound.spent (b : AgentAnswerBound) (t : List HITLApproval) : Nat :=
  t.countP b.counts

/-- UPDATE ... WHERE id AND state = 'pending' AND the count is below the bound. -/
def resolveHITLApprovalWithinBound (id : String) (b : AgentAnswerBound)
    (st : HITLApprovalState) (res : ApprovalResolution) (at_ : Time) :
    Option (List HITLApproval) :=
  Lib.Table.updateWhere HITLApproval.id t id
    (fun a => a.state = .pending && ((b.spent t : Int) < b.max))
    (HITLApproval.resolve st res at_)

/-- The pending rows whose deadline has passed, earliest deadline first. -/
def listExpiredHITLApprovals (asOf : Time) (limit : Nat) : List HITLApproval :=
  let limit := if limit = 0 ∨ limit > maxLimit then maxLimit else limit
  ((t.filter fun a => a.state = .pending ∧ 0 < a.expiresAt ∧ a.expiresAt ≤ asOf).insertionSort
    fun a b => a.expiresAt ≤ b.expiresAt).take limit

/-- The asks of a mission, newest first. -/
def listHITLApprovalsForMission (missionID : String) (limit : Nat) : List HITLApproval :=
  let limit := if limit = 0 then maxLimit else limit
  ((t.filter fun a => a.missionID = some missionID).insertionSort
    fun a b => b.createdAt ≤ a.createdAt).take limit

@[simp] theorem id_resolve (st : HITLApprovalState) (res : ApprovalResolution) (at_ : Time)
    (a : HITLApproval) : (a.resolve st res at_).id = a.id := rfl

variable {id : String} {t t' : List HITLApproval} {res : ApprovalResolution}
  {st : HITLApprovalState} {at_ : Time}

/-- What a won compare-and-set says: the row was there and pending, and now carries the
verdict; every other row is as it was. -/
theorem resolveHITLApproval_eq_some (h : resolveHITLApproval t id st res at_ = some t') :
    ∃ row, getHITLApproval t id = some row ∧ row.state = .pending ∧
      t' = Lib.Table.update HITLApproval.id t id (HITLApproval.resolve st res at_) := by
  obtain ⟨row, hg, hp, ht⟩ := Lib.Table.updateWhere_eq_some h
  exact ⟨row, hg, by simpa using hp, ht⟩

theorem resolveHITLApprovalWithinBound_eq_some {b : AgentAnswerBound}
    (h : resolveHITLApprovalWithinBound t id b st res at_ = some t') :
    ∃ row, getHITLApproval t id = some row ∧ row.state = .pending ∧
      t' = Lib.Table.update HITLApproval.id t id (HITLApproval.resolve st res at_) := by
  obtain ⟨row, hg, hp, ht⟩ := Lib.Table.updateWhere_eq_some h
  simp only [Bool.and_eq_true, decide_eq_true_eq] at hp
  exact ⟨row, hg, hp.1, ht⟩

theorem getHITLApproval_update (t : List HITLApproval) (id id' : String)
    (st : HITLApprovalState) (res : ApprovalResolution) (at_ : Time) :
    getHITLApproval (Lib.Table.update HITLApproval.id t id (HITLApproval.resolve st res at_)) id' =
      if id' = id then (getHITLApproval t id).map (HITLApproval.resolve st res at_)
      else getHITLApproval t id' :=
  Lib.Table.get_update fun _ => rfl

theorem mem_listExpired {asOf : Time} {limit : Nat} {a : HITLApproval}
    (h : a ∈ listExpiredHITLApprovals t asOf limit) : a ∈ t ∧ a.state = .pending := by
  have h' := List.mem_of_mem_take h
  rw [List.mem_insertionSort, List.mem_filter] at h'
  exact ⟨h'.1, by simpa using (of_decide_eq_true h'.2).1⟩

/-! ## 4. Statements on `chain_checkpoints` -/

variable (t : List ChainCheckpoint) (id : String)

/-- INSERT of a fresh checkpoint. -/
def createChainCheckpoint (now : Time) : Option (List ChainCheckpoint) :=
  Lib.Table.insert ChainCheckpoint.id t
    { id, failure := none, claimedAt := none, createdAt := now, updatedAt := now }

/-- SELECT ... WHERE id. -/
def getChainCheckpoint : Option ChainCheckpoint :=
  Lib.Table.get ChainCheckpoint.id t id

/-- UPDATE ... WHERE id AND (claimed_at IS NULL OR claimed_at < staleBefore).  `staleBefore`
may lie before the zero time, so it is an integer. -/
def claimChainCheckpoint (now : Time) (staleBefore : Int) : Option (List ChainCheckpoint) :=
  Lib.Table.updateWhere ChainCheckpoint.id t id
    (fun cp => cp.claimedAt.all fun c => (c : Int) < staleBefore)
    (fun cp => { cp with claimedAt := some now, updatedAt := now })

/-- The heartbeat: UPDATE ... WHERE id AND claimed_at IS NOT NULL. -/
def touchChainCheckpointClaim (now : Time) : Option (List ChainCheckpoint) :=
  Lib.Table.updateWhere ChainCheckpoint.id t id (fun cp => cp.claimedAt.isSome)
    (fun cp => { cp with claimedAt := some now, updatedAt := now })

/-- The failure annotation of a resume that did not finish. -/
def setChainCheckpointFailure (t : List ChainCheckpoint) (id failure : String) (now : Time) :
    Option (List ChainCheckpoint) :=
  Lib.Table.updateWhere ChainCheckpoint.id t id (fun _ => true)
    (fun cp => { cp with failure := some failure, updatedAt := now })

/-- DELETE ... WHERE id; `none` when there was no such row. -/
def deleteChainCheckpoint : Option (List ChainCheckpoint) :=
  if (getChainCheckpoint t id).isSome then some (Lib.Table.delete ChainCheckpoint.id t id)
  else none

/-- The checkpoints created before the cursor, newest first, then by descending id. -/
def listChainCheckpoints (t : List ChainCheckpoint) (cursor : Time) (limit : Nat) :
    List ChainCheckpoint :=
  let limit := if limit = 0 then maxLimit else limit
  ((t.filter fun cp => cp.createdAt < cursor).insertionSort fun a b =>
    b.createdAt < a.createdAt ∨ b.createdAt = a.createdAt ∧ b.id ≤ a.id).take limit

/-! ## 5. The claim on a checkpoint

All that matters to a race for a checkpoint is whether it is stored and what its
`claimed_at` says.  Each statement is described by what it does to that. -/

/-- `none`: no such checkpoint.  `some none`: stored and never claimed. -/
def claimOf : Option (Option Time) :=
  (getChainCheckpoint t id).map ChainCheckpoint.claimedAt

@[simp] theorem claimOf_nil (id : String) : claimOf [] id = none := rfl

section ClaimOf

variable {t t' : List ChainCheckpoint} {id id' : String} {now : Time}

theorem claimOf_of_get {cp : ChainCheckpoint} (h : getChainCheckpoint t id = some cp) :
    claimOf t id = some cp.claimedAt := by
  simp [claimOf, h]

theorem claimOf_create (h : createChainCheckpoint t id now = some t') :
    claimOf t' id' = if id' = id then some none else claimOf t id' := by
  obtain ⟨-, hget⟩ := Lib.Table.insert_eq_some h
  unfold claimOf getChainCheckpoint
  rw [hget]
  split <;> rfl

/-- An UPDATE by id, seen through the claim. -/
theorem claimOf_updateWhere {p : ChainCheckpoint → Bool} {f : ChainCheckpoint → ChainCheckpoint}
    (h : Lib.Table.updateWhere ChainCheckpoint.id t id p f = some t')
    (hid : ∀ cp, (f cp).id = cp.id) (c : Option Time → Option Time)
    (hc : ∀ cp, (f cp).claimedAt = c cp.claimedAt) :
    ∃ cp, getChainCheckpoint t id = some cp ∧ p cp = true ∧
      ∀ id', claimOf t' id' = if id' = id then some (c cp.claimedAt) else claimOf t id' := by
  obtain ⟨cp, hg, hp, rfl⟩ := Lib.Table.updateWhere_eq_some h
  refine ⟨cp, hg, hp, fun id' => ?_⟩
  unfold claimOf getChainCheckpoint
  rw [Lib.Table.get_update hid, hg]
  split
  · simp [hc]
  · rfl

variable {stale : Int}

/-- A claim finds the checkpoint unclaimed, or claimed too long ago. -/
theorem claimOf_claim (h : claimChainCheckpoint t id now stale = some t') :
    ∃ found, claimOf t id = some found ∧ (∀ u, found = some u → (u : Int) < stale) ∧
      ∀ id', claimOf t' id' = if id' = id then some (some now) else claimOf t id' := by
  obtain ⟨cp, hg, hp, hset⟩ :=
    claimOf_updateWhere h (fun _ => rfl) (fun _ => some now) (fun _ => rfl)
  refine ⟨cp.claimedAt, claimOf_of_get hg, fun u hu => ?_, hset⟩
  simpa [hu] using hp

theorem claimOf_claim_none (h : claimChainCheckpoint t id now stale = none) :
    claimOf t id ≠ some none := by
  intro hc
  obtain ⟨cp, hg, hcp⟩ := Option.map_eq_some_iff.mp hc
  have hfalse := Lib.Table.updateWhere_eq_none h hg
  simp [hcp] at hfalse

theorem claimOf_touch (h : touchChainCheckpointClaim t id now = some t') :
    ∃ u, claimOf t id = some (some u) ∧
      ∀ id', claimOf t' id' = if id' = id then some (some now) else claimOf t id' := by
  obtain ⟨cp, hg, hp, hset⟩ :=
    claimOf_updateWhere h (fun _ => rfl) (fun _ => some now) (fun _ => rfl)
  obtain ⟨u, hu⟩ := Option.isSome_iff_exists.mp hp
  exact ⟨u, by rw [claimOf_of_get hg, hu], hset⟩

theorem claimOf_annotate {failure : String}
    (h : setChainCheckpointFailure t id failure now = some t') : claimOf t' id' = claimOf t id' := by
  obtain ⟨cp, hg, -, hset⟩ := claimOf_updateWhere h (fun _ => rfl) (fun c => c) (fun _ => rfl)
  rw [hset]
  split
  · rename_i heq
    rw [heq, claimOf_of_get hg]
  · rfl

theorem claimOf_delete (h : deleteChainCheckpoint t id = some t') :
    claimOf t' id' = if id' = id then none else claimOf t id' := by
  unfold deleteChainCheckpoint at h
  split at h
  · cases h
    unfold claimOf getChainCheckpoint
    rw [Lib.Table.get_delete]
    split <;> rfl
  · cases h

theorem claimOf_delete_none (h : deleteChainCheckpoint t id = none) : claimOf t id = none := by
  unfold deleteChainCheckpoint at h
  split at h
  · cases h
  · rename_i hno
    simpa [claimOf] using hno

end ClaimOf

end Contenox.Approvals
