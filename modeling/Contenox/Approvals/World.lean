/-
# The shared world of approvals: atomic operations and what they do

Everything that more than one party can see.  The two tables live in the database and are
shared by every process; the waiter registry and its channels live in one process each.  An
operation of this file is what the source does in ONE atomic step: an SQL statement, a
section under `service.mu`, one channel operation, one `select`.

The environment has no program.  It chooses the RESULT of an operation: which case of a
`select` fires, whether a statement fails, what a person answers on the card, how a resumed
run ends.  `sem` says which results are possible in a world and what the world becomes.

Six fields are auxiliary.  No program reads them; they record history, so that a property
of whole runs can be stated about the world a run ends in:

* `minter id`: the thread that made up a call id;
* `winner id`: the thread whose UPDATE moved the row out of pending;
* `received`: what each waiter took out of its channel;
* `executed`: the asks whose gated tool was run on the strength of a durable row;
* `saved id` / `rechecked id`: who saved the checkpoint, and whether the re-check that
  follows found the row still pending;
* `claims`: every successful claim of a checkpoint, latest first.
-/
import Contenox.Lib.Threads
import Contenox.Approvals.Store

namespace Contenox.Approvals

open Hitl (Action)
open Lib (of_guard of_guard_not)

/-! ## 1. The world -/

/-- A process; each has its own waiter registry and its own resume hook. -/
abbrev Proc := Nat

/-- A channel made for a waiter. -/
abbrev ChanId := Nat

/-- What travels over a waiter's channel. -/
structure Answer where
  approved : Bool
  text : String
  deriving DecidableEq, Repr

/-- A successful claim: of which checkpoint, by whom, the `claimed_at` it wrote, the one it
found, and when the statement ran. -/
structure Claim (ι : Type) where
  id : String
  by_ : ι
  at_ : Time
  found : Option Time
  clock : Time

structure World (ι : Type) where
  clock : Time
  approvals : List HITLApproval
  checkpoints : List ChainCheckpoint
  pending : Proc → String → Option ChanId
  chans : ChanId → Option Answer
  nextChan : ChanId
  minter : String → Option ι
  askOf : ChanId → String
  received : List (ChanId × Answer)
  winner : String → Option ι
  executed : List String
  saved : String → Option ι
  rechecked : String → Bool
  claims : List (Claim ι)

/-- No rows, no waiters, nothing has happened yet. -/
def World.init (ι : Type) : World ι where
  clock := 1
  approvals := []
  checkpoints := []
  pending := fun _ _ => none
  chans := fun _ => none
  nextChan := 0
  minter := fun _ => none
  askOf := fun _ => ""
  received := []
  winner := fun _ => none
  executed := []
  saved := fun _ => none
  rechecked := fun _ => false
  claims := []

/-! ## 2. Requests -/

/-- The part of an `ApprovalRequest` that the protocol reads.  The last field is what
validation guarantees of every rule (`onTimeout_ne_allow_of_validateRules`). -/
structure ApprovalRequest where
  toolsName : String
  toolName : String
  missionID : String
  timeoutS : Int
  onTimeout : Option Action
  onTimeout_ne_allow : onTimeout ≠ some .allow

/-- The part of an `AttentionRequest` that the protocol reads. -/
structure AttentionRequest where
  summary : String
  missionID : String
  askID : String
  detached : Bool

/-! ## 3. Operations -/

/-- Why a statement did not succeed: it matched no row, or it failed. -/
inductive SqlErr
  | notFound
  | failed
  deriving DecidableEq, Repr

/-- The cases of the `select` a blocked asker sits in.  `ctxDone` is whether the CALLER's
context is over, which is what tells a process that leaves from a wait that ran out. -/
inductive WaitEvent
  | card (approved : Bool)
  | cardError (ctxDone : Bool)
  | waiter (a : Answer)
  | poll
  | done (ctxDone : Bool)

/-- How the engine ends a resumed run, as far as this protocol sees it. -/
inductive RunOutcome
  | completed
  | completedCancelled
  | failed
  | asks (callID : String) (req : ApprovalRequest)

/-- The atomic operations. -/
inductive Op
  -- the environment
  | now
  | advance (d : Nat)
  | mintCallID
  | toolCallIDFor (given : String)
  | choose
  | missionTerminal (missionID : String)
  | runOutcome (mayAsk : Bool)
  | execTool (id : String) (durable : Bool)
  | block
  -- hitl_approvals
  | createHITLApproval (a : HITLApproval)
  | getHITLApproval (id : String)
  | recheckHITLApproval (id : String)
  | resolveHITLApproval (inline_ : Bool) (id : String) (st : HITLApprovalState)
      (res : ApprovalResolution) (at_ : Time)
  | resolveHITLApprovalWithinBound (id : String) (b : AgentAnswerBound)
      (st : HITLApprovalState) (res : ApprovalResolution) (at_ : Time)
  | listExpiredHITLApprovals (asOf : Time) (limit : Nat)
  | listHITLApprovalsForMission (missionID : String) (limit : Nat)
  -- chain_checkpoints
  | createChainCheckpoint (id : String) (now : Time)
  | getChainCheckpoint (id : String)
  | claimChainCheckpoint (id : String) (now : Time) (staleBefore : Int)
  | touchChainCheckpointClaim (id : String) (now : Time)
  | setChainCheckpointFailure (id failure : String) (now : Time)
  | deleteChainCheckpoint (id : String)
  | listChainCheckpoints (cursor : Time) (limit : Nat)
  -- the waiter registry of a process, and channels
  | registerWaiter (p : Proc) (id : String)
  | releaseWaiter (p : Proc) (id : String) (ch : ChanId)
  | deletePending (p : Proc) (id : String)
  | lookupPending (p : Proc) (id : String)
  | wake (ch : ChanId) (a : Answer)
  | select (card : Bool) (ch : Option ChanId) (poll indefinite : Bool)

/-- What each operation answers. -/
@[reducible] def Op.Res : Op → Type
  | .now => Time
  | .advance _ => Unit
  | .mintCallID => String
  | .toolCallIDFor _ => String
  | .choose => Bool
  | .missionTerminal _ => Bool
  | .runOutcome _ => RunOutcome
  | .execTool _ _ => Bool
  | .block => Empty
  | .createHITLApproval _ => Except SqlErr Unit
  | .getHITLApproval _ => Except SqlErr HITLApproval
  | .recheckHITLApproval _ => Except SqlErr HITLApproval
  | .resolveHITLApproval _ _ _ _ _ => Except SqlErr Unit
  | .resolveHITLApprovalWithinBound _ _ _ _ _ => Except SqlErr Unit
  | .listExpiredHITLApprovals _ _ => Except SqlErr (List HITLApproval)
  | .listHITLApprovalsForMission _ _ => Except SqlErr (List HITLApproval)
  | .createChainCheckpoint _ _ => Except SqlErr Unit
  | .getChainCheckpoint _ => Except SqlErr ChainCheckpoint
  | .claimChainCheckpoint _ _ _ => Except SqlErr Unit
  | .touchChainCheckpointClaim _ _ => Except SqlErr Unit
  | .setChainCheckpointFailure _ _ _ => Except SqlErr Unit
  | .deleteChainCheckpoint _ => Except SqlErr Unit
  | .listChainCheckpoints _ _ => Except SqlErr (List ChainCheckpoint)
  | .registerWaiter _ _ => ChanId
  | .releaseWaiter _ _ _ => Unit
  | .deletePending _ _ => Unit
  | .lookupPending _ _ => Option ChanId
  | .wake _ _ => Unit
  | .select _ _ _ _ => WaitEvent

/-! ## 4. What an operation does -/

section

variable {ι : Type} {i : ι} {s s' : World ι}

/-- The possible answers of a read: the value that is there, or a failure at any time. -/
def read {α : Type} [DecidableEq α] (s : World ι) (actual : Option α) :
    Except SqlErr α → Option (World ι)
  | .error .failed => some s
  | .error .notFound => if actual = none then some s else none
  | .ok a => if actual = some a then some s else none

/-- The possible answers of a write: done, no row affected, or a failure that left the world
as it was. -/
def write (s : World ι) (next : Option (World ι)) : Except SqlErr Unit → Option (World ι)
  | .error .failed => some s
  | .error .notFound => if next.isNone then some s else none
  | .ok () => next

/-- A list query can fail but is never "not found". -/
def readList {α : Type} [DecidableEq α] (s : World ι) (limit : Nat) (actual : List α) :
    Except SqlErr (List α) → Option (World ι)
  | .error .failed => some s
  | .error .notFound => none
  | .ok l => if limit ≤ maxLimit ∧ l = actual then some s else none

/-- A verdict lands: the table changes and the thread is the row's winner. -/
def World.won [DecidableEq ι] (s : World ι) (i : ι) (id : String) (t : List HITLApproval) :
    World ι :=
  { s with approvals := t, winner := Function.update s.winner id (some i) }

/-- The world after a waiter has been taken out of a registry. -/
def World.unregister (s : World ι) (p : Proc) (id : String) : World ι :=
  { s with pending := Function.update s.pending p (Function.update (s.pending p) id none) }

/-- A condition on the steps of the threads. -/
abbrev StepCond (ι : Type) : Type := Lib.StepCond ι (World ι) Op Op.Res

/-- `sem i s o r`: thread `i` asks `o` in `s` and is answered `r`; the world afterwards. -/
def sem [DecidableEq ι] (i : ι) (s : World ι) : (o : Op) → o.Res → Option (World ι)
  | .now, t => if t = s.clock then some s else none
  | .advance d, () => some { s with clock := s.clock + d }
  -- a minted id is new: nothing is keyed by it yet
  | .mintCallID, id =>
      if s.minter id = none then some { s with minter := Function.update s.minter id (some i) }
      else none
  -- a provider's id is kept, whether or not it is new; it belongs to the first call that has it
  | .toolCallIDFor given, id =>
      if (given = "" → s.minter id = none) ∧ (given ≠ "" → id = given) then
        some (if s.minter id = none then { s with minter := Function.update s.minter id (some i) }
          else s)
      else none
  | .choose, _ => some s
  | .missionTerminal _, _ => some s
  | .runOutcome mayAsk, r =>
      match r with
      | .asks _ _ => if mayAsk then some s else none
      | _ => some s
  | .execTool id durable, _ =>
      some (if durable then { s with executed := id :: s.executed } else s)
  | .block, r => nomatch r
  | .createHITLApproval a, r =>
      match r with
      | .error .failed => some s
      | .error .notFound => none
      | .ok () => (createHITLApproval s.approvals a).map fun t => { s with approvals := t }
  | .getHITLApproval id, r => read s (getHITLApproval s.approvals id) r
  | .recheckHITLApproval id, r =>
      (read s (getHITLApproval s.approvals id) r).map fun s =>
        match r with
        | .ok row =>
            if row.state = .pending then
              { s with rechecked := Function.update s.rechecked id true }
            else s
        | .error _ => s
  | .resolveHITLApproval _ id st res at_, r =>
      write s ((resolveHITLApproval s.approvals id st res at_).map (s.won i id)) r
  | .resolveHITLApprovalWithinBound id b st res at_, r =>
      write s ((resolveHITLApprovalWithinBound s.approvals id b st res at_).map (s.won i id)) r
  | .listExpiredHITLApprovals asOf limit, r =>
      readList s limit (listExpiredHITLApprovals s.approvals asOf limit) r
  | .listHITLApprovalsForMission m limit, r =>
      readList s limit (listHITLApprovalsForMission s.approvals m limit) r
  | .createChainCheckpoint id now, r =>
      match r with
      | .error .failed => some s
      | .error .notFound => none
      | .ok () => (createChainCheckpoint s.checkpoints id now).map fun t =>
          { s with checkpoints := t, saved := Function.update s.saved id (some i) }
  | .getChainCheckpoint id, r => read s (getChainCheckpoint s.checkpoints id) r
  | .claimChainCheckpoint id now staleBefore, r =>
      write s ((claimChainCheckpoint s.checkpoints id now staleBefore).map fun t =>
        { s with
          checkpoints := t
          claims := ⟨id, i, now, (getChainCheckpoint s.checkpoints id).bind
            ChainCheckpoint.claimedAt, s.clock⟩ :: s.claims }) r
  | .touchChainCheckpointClaim id now, r =>
      write s ((touchChainCheckpointClaim s.checkpoints id now).map fun t =>
        { s with checkpoints := t }) r
  | .setChainCheckpointFailure id failure now, r =>
      write s ((setChainCheckpointFailure s.checkpoints id failure now).map fun t =>
        { s with checkpoints := t }) r
  | .deleteChainCheckpoint id, r =>
      write s ((deleteChainCheckpoint s.checkpoints id).map fun t =>
        { s with checkpoints := t }) r
  | .listChainCheckpoints cursor limit, r =>
      readList s limit (listChainCheckpoints s.checkpoints cursor limit) r
  | .registerWaiter p id, ch =>
      if ch = s.nextChan then
        some { s with
          pending := Function.update s.pending p (Function.update (s.pending p) id (some ch))
          nextChan := s.nextChan + 1
          askOf := Function.update s.askOf ch id }
      else none
  -- a release removes only its own channel
  | .releaseWaiter p id ch, () =>
      some (if s.pending p id = some ch then s.unregister p id else s)
  | .deletePending p id, () => some (s.unregister p id)
  | .lookupPending p id, r => if r = s.pending p id then some s else none
  -- the channel holds one answer; a send to a full one is dropped
  | .wake ch a, () =>
      some (if s.chans ch = none then { s with chans := Function.update s.chans ch (some a) }
        else s)
  | .select card ch poll indefinite, r =>
      match r with
      | .card _ => if card then some s else none
      | .cardError _ => if card then some s else none
      | .waiter a =>
          match ch with
          | none => none
          | some c =>
              if s.chans c = some a then
                some { s with
                  chans := Function.update s.chans c none
                  received := (c, a) :: s.received }
              else none
      | .poll => if poll then some s else none
      -- with no deadline of its own, a wait ends only with its caller
      | .done ctxDone => if indefinite && !ctxDone then none else some s

/-! ## 5. What a step can do

One inversion lemma per part of the world, so that no later proof unfolds `sem` for an
operation that does not concern it. -/

variable {α : Type}

theorem read_eq_some [DecidableEq α] {actual : Option α} {r : Except SqlErr α}
    (h : read s actual r = some s') :
    s' = s ∧ (∀ a, r = .ok a → actual = some a) ∧ (r = .error .notFound → actual = none) := by
  match r with
  | .error .failed => simp_all [read]
  | .error .notFound => simp only [read] at h; split at h <;> simp_all
  | .ok a => simp only [read] at h; split at h <;> simp_all

theorem readList_eq_some [DecidableEq α] {limit : Nat} {actual : List α}
    {r : Except SqlErr (List α)} (h : readList s limit actual r = some s') :
    s' = s ∧ ∀ l, r = .ok l → l = actual := by
  match r with
  | .error .failed => simp_all [readList]
  | .error .notFound => simp [readList] at h
  | .ok l => simp only [readList] at h; split at h <;> simp_all

variable {r : Except SqlErr Unit}

theorem write_eq_some {next : Option (World ι)} (h : write s next r = some s') :
    (r = .ok () ∧ next = some s') ∨
      (r ≠ .ok () ∧ s' = s ∧ (r = .error .notFound → next = none)) := by
  match r with
  | .error .failed => simp_all [write]
  | .error .notFound => simp only [write] at h; split at h <;> simp_all
  | .ok () => exact .inl ⟨rfl, h⟩

/-- A write that went through has made the change it is about. -/
theorem write_map_eq_some {α : Type} {next : Option α} {f : α → World ι} {r : Except SqlErr Unit}
    (h : write s (next.map f) r = some s') :
    (r = .ok () ∧ ∃ t, next = some t ∧ f t = s') ∨
      (r ≠ .ok () ∧ s' = s ∧ (r = .error .notFound → next = none)) := by
  obtain ⟨hr, hn⟩ | ⟨hr, hs, hnone⟩ := write_eq_some h
  · exact .inl ⟨hr, Option.map_eq_some_iff.mp hn⟩
  · exact .inr ⟨hr, hs, fun h => Option.map_eq_none_iff.mp (hnone h)⟩

variable [DecidableEq ι] {o : Op} {r : o.Res}

/-- The verdict an operation tries to write. -/
structure Verdict where
  id : String
  state : HITLApprovalState
  resolution : ApprovalResolution
  at_ : Time

/-- The two compare-and-set statements. -/
def Op.verdict : Op → Option Verdict
  | .resolveHITLApproval _ id st res at_ => some ⟨id, st, res, at_⟩
  | .resolveHITLApprovalWithinBound id _ st res at_ => some ⟨id, st, res, at_⟩
  | _ => none

/-- The table after a verdict has been written. -/
def Verdict.apply (v : Verdict) (t : List HITLApproval) : List HITLApproval :=
  Lib.Table.update HITLApproval.id t v.id (HITLApproval.resolve v.state v.resolution v.at_)

omit [DecidableEq ι] in
/-- What is left after a waiter was taken out was there before. -/
theorem unregister_eq_some {q q' : Proc} {id id' : String} {ch : ChanId}
    (h : (s.unregister q' id').pending q id = some ch) : s.pending q id = some ch := by
  simp only [World.unregister, Function.update_apply] at h
  split at h
  · rename_i hq
    subst hq
    simp only [Function.update_apply] at h
    split at h
    · cases h
    · exact h
  · exact h

/-- Everything a step can do to the world.  A verdict is written only over a pending row. -/
inductive Change (i : ι) (s : World ι) : Op → World ι → Prop
  | same (o : Op) : Change i s o s
  | advance (d : Nat) : Change i s (.advance d) { s with clock := s.clock + d }
  | mint (id : String) (h : s.minter id = none) :
      Change i s .mintCallID { s with minter := Function.update s.minter id (some i) }
  | name (given id : String) (h : s.minter id = none) :
      Change i s (.toolCallIDFor given) { s with minter := Function.update s.minter id (some i) }
  | exec (id : String) : Change i s (.execTool id true) { s with executed := id :: s.executed }
  | create (a : HITLApproval) (t : List HITLApproval)
      (h : createHITLApproval s.approvals a = some t) :
      Change i s (.createHITLApproval a) { s with approvals := t }
  | recheck (id : String) (row : HITLApproval) (hg : getHITLApproval s.approvals id = some row)
      (hp : row.state = .pending) :
      Change i s (.recheckHITLApproval id)
        { s with rechecked := Function.update s.rechecked id true }
  | resolve (o : Op) (v : Verdict) (row : HITLApproval) (hv : o.verdict = some v)
      (hg : getHITLApproval s.approvals v.id = some row) (hp : row.state = .pending) :
      Change i s o (s.won i v.id (v.apply s.approvals))
  | save (id : String) (now : Time) (t : List ChainCheckpoint)
      (h : createChainCheckpoint s.checkpoints id now = some t) :
      Change i s (.createChainCheckpoint id now)
        { s with checkpoints := t, saved := Function.update s.saved id (some i) }
  | claim (id : String) (now : Time) (stale : Int) (t : List ChainCheckpoint)
      (h : claimChainCheckpoint s.checkpoints id now stale = some t) :
      Change i s (.claimChainCheckpoint id now stale)
        { s with
          checkpoints := t
          claims := ⟨id, i, now, (getChainCheckpoint s.checkpoints id).bind
            ChainCheckpoint.claimedAt, s.clock⟩ :: s.claims }
  | touch (id : String) (now : Time) (t : List ChainCheckpoint)
      (h : touchChainCheckpointClaim s.checkpoints id now = some t) :
      Change i s (.touchChainCheckpointClaim id now) { s with checkpoints := t }
  | annotate (id failure : String) (now : Time) (t : List ChainCheckpoint)
      (h : setChainCheckpointFailure s.checkpoints id failure now = some t) :
      Change i s (.setChainCheckpointFailure id failure now) { s with checkpoints := t }
  | drop (id : String) (t : List ChainCheckpoint)
      (h : deleteChainCheckpoint s.checkpoints id = some t) :
      Change i s (.deleteChainCheckpoint id) { s with checkpoints := t }
  | register (p : Proc) (id : String) :
      Change i s (.registerWaiter p id)
        { s with
          pending := Function.update s.pending p
            (Function.update (s.pending p) id (some s.nextChan))
          nextChan := s.nextChan + 1
          askOf := Function.update s.askOf s.nextChan id }
  | release (p : Proc) (id : String) (ch : ChanId) :
      Change i s (.releaseWaiter p id ch) (s.unregister p id)
  | unregister (p : Proc) (id : String) : Change i s (.deletePending p id) (s.unregister p id)
  | wake (ch : ChanId) (a : Answer) (h : s.chans ch = none) :
      Change i s (.wake ch a) { s with chans := Function.update s.chans ch (some a) }
  | receive (card poll indefinite : Bool) (ch : ChanId) (a : Answer) (h : s.chans ch = some a) :
      Change i s (.select card (some ch) poll indefinite)
        { s with chans := Function.update s.chans ch none, received := (ch, a) :: s.received }

/-- Whether a compare-and-set was told that it went through. -/
def Op.landed : (o : Op) → o.Res → Bool
  | .resolveHITLApproval _ _ _ _ _, .ok () => true
  | .resolveHITLApprovalWithinBound _ _ _ _ _, .ok () => true
  | _, _ => false

/-- **A compare-and-set went through over a pending row, or changed nothing**, and its answer
says which. -/
theorem sem_verdict {v : Verdict} (hov : o.verdict = some v) (h : sem i s o r = some s') :
    (o.landed r = true ∧ ∃ row, getHITLApproval s.approvals v.id = some row ∧
      row.state = .pending ∧ s' = s.won i v.id (v.apply s.approvals)) ∨
    (o.landed r = false ∧ s' = s) := by
  cases o with
  | resolveHITLApproval inl id st res at_ =>
    cases hov
    obtain ⟨rfl, t, ht, rfl⟩ | ⟨hne, rfl, -⟩ := write_map_eq_some h
    · obtain ⟨row, hg, hp, rfl⟩ := resolveHITLApproval_eq_some ht
      exact .inl ⟨rfl, row, hg, hp, rfl⟩
    · cases r with
      | ok u => exact absurd rfl hne
      | error e => exact .inr ⟨rfl, rfl⟩
  | resolveHITLApprovalWithinBound id b st res at_ =>
    cases hov
    obtain ⟨rfl, t, ht, rfl⟩ | ⟨hne, rfl, -⟩ := write_map_eq_some h
    · obtain ⟨row, hg, hp, rfl⟩ := resolveHITLApprovalWithinBound_eq_some ht
      exact .inl ⟨rfl, row, hg, hp, rfl⟩
    · cases r with
      | ok u => exact absurd rfl hne
      | error e => exact .inr ⟨rfl, rfl⟩
  | _ => cases hov

/-- **The inversion lemma of the world**: a possible answer makes one of these changes. -/
theorem sem_change (h : sem i s o r = some s') : Change i s o s' := by
  cases o with
  | now | lookupPending _ _ => obtain ⟨-, rfl⟩ := of_guard h; exact .same _
  | advance d => cases h; exact .advance d
  | mintCallID =>
    obtain ⟨hfresh, rfl⟩ := of_guard h
    exact .mint _ hfresh
  | toolCallIDFor given =>
    obtain ⟨-, rfl⟩ := of_guard h
    split
    · exact .name given _ ‹_›
    · exact .same _
  | choose | missionTerminal _ => cases h; exact .same _
  | runOutcome mayAsk =>
    cases r <;> simp only [sem] at h
    case asks => split at h <;> simp_all [Change.same]
    all_goals cases h; exact .same _
  | execTool id durable =>
    cases h
    cases durable
    · exact .same _
    · exact .exec id
  | block => exact nomatch r
  | createHITLApproval a =>
    match r with
    | .error .failed => cases h; exact .same _
    | .error .notFound => cases h
    | .ok () =>
      obtain ⟨t, ht, rfl⟩ := Option.map_eq_some_iff.mp h
      exact .create a t ht
  | recheckHITLApproval id =>
    obtain ⟨s₁, hr, hs'⟩ := Option.map_eq_some_iff.mp h
    obtain ⟨rfl, hok, -⟩ := read_eq_some hr
    match r with
    | .error e => subst hs'; exact .same _
    | .ok row =>
      by_cases hp : row.state = .pending
      · simp only [hp, if_true] at hs'
        subst hs'
        exact .recheck id row (hok row rfl) hp
      · simp only [hp, if_false] at hs'
        subst hs'
        exact .same _
  | resolveHITLApproval _ _ _ _ _ | resolveHITLApprovalWithinBound _ _ _ _ _ =>
    obtain ⟨-, row, hg, hp, rfl⟩ | ⟨-, rfl⟩ := sem_verdict rfl h
    · exact .resolve _ _ row rfl hg hp
    · exact .same _
  | createChainCheckpoint id now =>
    match r with
    | .error .failed => cases h; exact .same _
    | .error .notFound => cases h
    | .ok () =>
      obtain ⟨t, ht, rfl⟩ := Option.map_eq_some_iff.mp h
      exact .save id now t ht
  | getHITLApproval _ | getChainCheckpoint _ => obtain ⟨rfl, -⟩ := read_eq_some h; exact .same _
  | claimChainCheckpoint id now stale =>
    obtain ⟨-, t, ht, rfl⟩ | ⟨-, rfl, -⟩ := write_map_eq_some h
    · exact .claim id now stale t ht
    · exact .same _
  | touchChainCheckpointClaim id now =>
    obtain ⟨-, t, ht, rfl⟩ | ⟨-, rfl, -⟩ := write_map_eq_some h
    · exact .touch id now t ht
    · exact .same _
  | setChainCheckpointFailure id failure now =>
    obtain ⟨-, t, ht, rfl⟩ | ⟨-, rfl, -⟩ := write_map_eq_some h
    · exact .annotate id failure now t ht
    · exact .same _
  | deleteChainCheckpoint id =>
    obtain ⟨-, t, ht, rfl⟩ | ⟨-, rfl, -⟩ := write_map_eq_some h
    · exact .drop id t ht
    · exact .same _
  | listExpiredHITLApprovals _ _ | listHITLApprovalsForMission _ _ | listChainCheckpoints _ _ =>
    obtain ⟨rfl, -⟩ := readList_eq_some h; exact .same _
  | registerWaiter p id =>
    obtain ⟨hch, rfl⟩ := of_guard h
    rw [hch]
    exact .register p id
  | releaseWaiter p id ch =>
    cases h
    split
    · exact .release p id ch
    · exact .same _
  | deletePending p id => cases h; exact .unregister p id
  | wake ch a =>
    cases h
    split
    · exact .wake ch a ‹_›
    · exact .same _
  | select card ch poll indefinite =>
    cases r with
    | waiter a =>
      cases ch with
      | none => cases h
      | some c =>
        obtain ⟨ha, rfl⟩ := of_guard h
        exact .receive card poll indefinite c a ha
    | done ctxDone => obtain ⟨-, rfl⟩ := of_guard_not h; exact .same _
    | _ => obtain ⟨-, rfl⟩ := of_guard h; exact .same _

end

end Contenox.Approvals
