/-
# The event log and the state of its consumers: the statements

Events are kept in one table per day, under a number that is global.  Beside the log stand the
consumers' cursors and the firings, one row for each pair of a trigger and an event.  The programs
of this package are sequences of SQL statements, each of them atomic, with the statements of other
processes in between; this file has the statements and what they do.

A statement may fail, and a write that is reported as failed may have been carried out.  Whether it
does is the environment's choice, and so are the time, the outcome of a chain and when a host dies.

Four fields of `World` are not in the database; they are kept to state the properties: what each
host still has to read of the listing it is in, the claim it holds, what was reported under a claim,
and which hosts have died.
-/
import Contenox.Lib.GoStrings
import Contenox.Lib.Table
import Contenox.Lib.Threads
import Mathlib.Data.List.Sort

namespace Contenox.Events

open Lib

/-! ## 1. Rows -/

structure Event where
  nid : Int
  workspaceID : String
  type : String
  source : String
  subject : String
  time : Int
  data : String
  hop : Int
  deriving DecidableEq, Repr

inductive FiringStatus
  | running
  | ok
  | error
  | refused
  deriving DecidableEq, Repr

structure FiringKey where
  scope : String
  triggerName : String
  nid : Int
  deriving DecidableEq, Repr

structure Firing where
  key : FiringKey
  status : FiringStatus
  error : String
  requestID : String
  createdAt : Int
  updatedAt : Int
  deriving DecidableEq, Repr

/-- `ORDER BY nid ASC`, and `sort.Slice` by the number. -/
def sortByNID (events : List Event) : List Event :=
  events.insertionSort fun a b => a.nid ≤ b.nid

/-! ## 2. Statements -/

/-- The answer to a write.  One that is reported as failed may have been carried out. -/
inductive Wrote (α : Type)
  | done (a : α)
  | failed (err : String) (carriedOut : Bool)
  deriving DecidableEq, Repr

/-- What a program asks of its surroundings.  A listing reads the registry for a workspace and a
number; the statement itself does not name them. -/
inductive Op (ι : Type)
  | now
  | newRequestID
  | ctxDone
  | runChain (triggerName : String) (ev : Event)
  | crash (host : ι)
  | createPartition (period : String)
  | indexPartition (period : String)
  | registerPartition (period : String)
  | insertEvent (period : String) (ev : Event)
  | listPartitions (workspaceID : String) (afterNID : Int)
  | maxNID (period : String)
  | selectEvents (period workspaceID : String) (afterNID : Int) (limit : Nat)
  | getCursor (consumer scope : String)
  | setCursor (consumer scope : String) (nid : Int)
  | insertFiring (key : FiringKey) (requestID : String) (now : Int)
  | reclaimFiring (key : FiringKey) (requestID : String) (now before : Int)
  | finishFiring (key : FiringKey) (status : FiringStatus) (err : String) (now : Int)
  | resetFiring (key : FiringKey) (updatedAt before : Int)

def Op.Res {ι : Type} : Op ι → Type
  | .now => Int
  | .newRequestID => String
  | .ctxDone => Bool
  | .runChain _ _ => Option String
  | .crash _ => Unit
  | .createPartition _ | .indexPartition _ => Except String Unit
  | .registerPartition _ => Wrote Unit
  | .insertEvent _ _ => Wrote Int
  | .listPartitions _ _ => Except String (List String)
  | .maxNID _ => Except String (Option Int)
  | .selectEvents _ _ _ _ => Except String (List Event)
  | .getCursor _ _ => Except String Int
  | .setCursor _ _ _ => Wrote Unit
  | .insertFiring _ _ _ => Wrote Bool
  | .reclaimFiring _ _ _ _ => Wrote Bool
  | .finishFiring _ _ _ _ => Wrote Unit
  | .resetFiring _ _ _ => Wrote Bool

/-- A sequential program of this package. -/
abbrev EventProg (ι α : Type) := Prog (Op ι) Op.Res α

abbrev issue {ι : Type} (o : Op ι) : EventProg ι o.Res := Prog.perform o

/-! ## 3. The database, and what is watched -/

/-- A listing in progress: the tables it still has to read, and the first event of its workspace
that went to a table it has passed or does not know. -/
structure Listing where
  workspaceID : String
  afterNID : Int
  todo : List String
  missed : Option Int
  deriving DecidableEq, Repr

/-- A table whose last event is not past the number the listing starts from. -/
def nothingNew : Option Listing → Option Int → Bool
  | some l, some n => n ≤ l.afterNID
  | some _, none => true
  | none, _ => false

/-- What a listing in progress has to be told of a new event. -/
def Listing.notice (l : Listing) (period : String) (ev : Event) : Listing :=
  if l.workspaceID = ev.workspaceID ∧ period ∉ l.todo ∧ l.missed = none then
    { l with missed := some ev.nid }
  else l

/-- A claim as the host that made it knows it. -/
structure Claim where
  key : FiringKey
  requestID : String
  since : Int
  deriving DecidableEq, Repr

/-- An outcome and the request id of the claim it was reported under. -/
structure Report where
  key : FiringKey
  requestID : String
  status : FiringStatus
  error : String
  deriving DecidableEq, Repr

structure World (ι : Type) where
  clock : Int
  minted : List (ι × String)
  lastNID : Int
  partitions : List String
  /-- the rows of all the day tables, each with its period, in the order of their commits -/
  rows : List (String × Event)
  cursors : List ((String × String) × Int)
  firings : List Firing
  listing : ι → Option Listing
  holds : ι → Option Claim
  begun : List FiringKey
  resets : List FiringKey
  reports : List Report
  dead : ι → Bool

namespace World

variable {ι : Type}

variable [DecidableEq ι] (w : World ι)

/-- The rows of one table. -/
def table (period : String) : List Event :=
  (w.rows.filter fun row => row.1 = period).map Prod.snd

/-- The events of a workspace, in the order of their commits. -/
def log (workspaceID : String) : List Event :=
  (w.rows.map Prod.snd).filter fun ev => ev.workspaceID = workspaceID

def firing (key : FiringKey) : Option Firing := Table.get Firing.key w.firings key

def setListing (i : ι) (l : Option Listing) : World ι :=
  { w with listing := Function.update w.listing i l }

def setClaim (i : ι) (c : Option Claim) : World ι :=
  { w with holds := Function.update w.holds i c }

/-- `SELECT MAX(nid)`. -/
def maxOf (period : String) : Option Int := ((w.table period).map (·.nid)).max?

def select (period workspaceID : String) (afterNID : Int) (limit : Nat) : List Event :=
  (sortByNID ((w.table period).filter fun ev =>
    ev.workspaceID = workspaceID ∧ afterNID < ev.nid)).take limit

/-- A listing is done with a table. -/
def passTable (i : ι) (period : String) : World ι :=
  w.setListing i ((w.listing i).map fun l => { l with todo := l.todo.filter (· ≠ period) })

/-- The append transaction: the number is bumped and the row inserted. -/
def append (period : String) (ev : Event) : World ι :=
  let ev := { ev with nid := w.lastNID + 1 }
  { w with
    lastNID := w.lastNID + 1
    rows := w.rows ++ [(period, ev)]
    listing := fun i => (w.listing i).map (·.notice period ev) }

def register (period : String) : World ι :=
  if period ∈ w.partitions then w else { w with partitions := w.partitions ++ [period] }

def putCursor (consumer scope : String) (nid : Int) : World ι :=
  { w with cursors := ((consumer, scope), nid) :: w.cursors.filter fun e => e.1 ≠ (consumer, scope) }

/-- `INSERT ... ON CONFLICT DO NOTHING`. -/
def putFiring (key : FiringKey) (requestID : String) (now : Int) : World ι :=
  match Table.insert Firing.key w.firings ⟨key, .running, "", requestID, now, now⟩ with
  | some firings => { w with firings := firings }
  | none => w

/-- A running claim that was last touched before the bound. -/
def reclaimable (key : FiringKey) (before : Int) : Bool :=
  match w.firing key with
  | some f => f.status = .running && f.updatedAt < before
  | none => false

def takeOver (key : FiringKey) (requestID : String) (now : Int) : World ι :=
  { w with firings := Table.update Firing.key w.firings key fun f =>
      { f with requestID := requestID, error := "", updatedAt := now } }

/-- The outcome is written whoever's claim the row carries. -/
def settle (i : ι) (key : FiringKey) (status : FiringStatus) (err : String) (now : Int) : World ι :=
  { w with
    firings := Table.update Firing.key w.firings key fun f =>
      { f with status := status, error := err, updatedAt := now }
    reports := w.reports ++
      ((w.holds i).toList.filter fun c => c.key = key).map fun c => ⟨key, c.requestID, status, err⟩ }

def resettable (key : FiringKey) (before : Int) : Bool :=
  match w.firing key with
  | some f => f.status ≠ .running || f.updatedAt < before
  | none => false

def reset (key : FiringKey) (updatedAt : Int) : World ι :=
  { w with
    firings := Table.update Firing.key w.firings key fun f =>
      { f with status := .running, error := "", updatedAt := updatedAt }
    resets := key :: w.resets }

/-- A host dies: what it was doing is left where it stands. -/
def crash (host : ι) : World ι :=
  { (w.setListing host none).setClaim host none with dead := Function.update w.dead host true }

/-- A claim the host has been told of. -/
def claimed (i : ι) (key : FiringKey) (requestID : String) (now : Int) : World ι :=
  { w.setClaim i (some ⟨key, requestID, now⟩) with begun := key :: w.begun }

end World

/-! ## 4. What a statement does -/

section

variable [DecidableEq ι] {w w' : World ι} {o : Op ι} {i : ι}

/-- What the surroundings may answer a live host, and the world after it. -/
def answer (i : ι) (w : World ι) : (o : Op ι) → o.Res → Option (World ι)
  | .now, (t : Int) => if w.clock ≤ t then some { w with clock := t } else none
  | .newRequestID, (id : String) =>
    if id ∈ w.minted.map Prod.snd then none else some { w with minted := (i, id) :: w.minted }
  | .ctxDone, _ => some w
  | .runChain _ _, _ => some w
  | .crash host, () => some (w.crash host)
  | .createPartition _, _ => some w
  | .indexPartition _, _ => some w
  | .registerPartition period, .done () => some (w.register period)
  | .registerPartition period, .failed _ carriedOut =>
    some (if carriedOut then w.register period else w)
  | .insertEvent period ev, .done nid =>
    if period ∈ w.partitions ∧ nid = w.lastNID + 1 then some (w.append period ev) else none
  | .insertEvent period ev, .failed _ carriedOut =>
    some (if carriedOut ∧ period ∈ w.partitions then w.append period ev else w)
  | .listPartitions workspaceID afterNID, .ok periods =>
    if periods = w.partitions.insertionSort (· ≤ ·) then
      some (w.setListing i (some ⟨workspaceID, afterNID, periods, none⟩))
    else none
  | .listPartitions _ _, .error _ => some (w.setListing i none)
  | .maxNID period, .ok m =>
    if m = w.maxOf period then
      -- a table with nothing new is not read any further
      some (if nothingNew (w.listing i) m then w.passTable i period else w)
    else none
  | .maxNID _, .error _ => some (w.setListing i none)
  | .selectEvents period workspaceID afterNID limit, .ok events =>
    if events = w.select period workspaceID afterNID limit then some (w.passTable i period) else none
  | .selectEvents _ _ _ _, .error _ => some (w.setListing i none)
  | .getCursor consumer scope, .ok nid =>
    if nid = (w.cursors.lookup (consumer, scope)).getD 0 then some w else none
  | .getCursor _ _, .error _ => some w
  | .setCursor consumer scope nid, .done () => some (w.putCursor consumer scope nid)
  | .setCursor consumer scope nid, .failed _ carriedOut =>
    some (if carriedOut then w.putCursor consumer scope nid else w)
  | .insertFiring key requestID now, .done true =>
    if w.firing key = none then some ((w.putFiring key requestID now).claimed i key requestID now)
    else none
  | .insertFiring key _ _, .done false => if w.firing key = none then none else some w
  | .insertFiring key requestID now, .failed _ carriedOut =>
    some (if carriedOut then w.putFiring key requestID now else w)
  | .reclaimFiring key requestID now before, .done true =>
    if w.reclaimable key before then
      some ((w.takeOver key requestID now).claimed i key requestID now)
    else none
  | .reclaimFiring key _ _ before, .done false => if w.reclaimable key before then none else some w
  | .reclaimFiring key requestID now before, .failed _ carriedOut =>
    some (if carriedOut ∧ w.reclaimable key before then w.takeOver key requestID now else w)
  | .finishFiring key status err now, .done () =>
    some ((w.settle i key status err now).setClaim i none)
  | .finishFiring key status err now, .failed _ carriedOut =>
    some ((if carriedOut then w.settle i key status err now else w).setClaim i none)
  | .resetFiring key updatedAt before, .done true =>
    if w.resettable key before then some (w.reset key updatedAt) else none
  | .resetFiring key _ before, .done false => if w.resettable key before then none else some w
  | .resetFiring key updatedAt before, .failed _ carriedOut =>
    some (if carriedOut ∧ w.resettable key before then w.reset key updatedAt else w)

/-- The dead do nothing. -/
def sem : Lib.Semantics ι (World ι) (Op ι) Op.Res := fun i w o r =>
  if w.dead i then none else answer i w o r

/-- What a step can do to the world, by whom and with which answer. -/
inductive Effect (i : ι) (w : World ι) : (o : Op ι) → o.Res → World ι → Prop
  | nothing (o : Op ι) (r : o.Res) : Effect i w o r w
  | now {t : Int} (h : w.clock ≤ t) : Effect i w .now t { w with clock := t }
  | mint {id : String} (h : id ∉ w.minted.map Prod.snd) :
      Effect i w .newRequestID id { w with minted := (i, id) :: w.minted }
  | crash (host : ι) (r : Unit) : Effect i w (.crash host) r (w.crash host)
  | register (period : String) (r : Wrote Unit) :
      Effect i w (.registerPartition period) r (w.register period)
  | append {period : String} (ev : Event) (r : Wrote Int) (h : period ∈ w.partitions) :
      Effect i w (.insertEvent period ev) r (w.append period ev)
  | listing (o : Op ι) (r : o.Res) (l : Option Listing) : Effect i w o r (w.setListing i l)
  | cursor (consumer scope : String) (nid : Int) (r : Wrote Unit) :
      Effect i w (.setCursor consumer scope nid) r (w.putCursor consumer scope nid)
  | claim {key : FiringKey} (requestID : String) (now : Int) (h : w.firing key = none) :
      Effect i w (.insertFiring key requestID now) (.done true)
        ((w.putFiring key requestID now).claimed i key requestID now)
  | claimUntold (key : FiringKey) (requestID : String) (now : Int) (e : String) :
      Effect i w (.insertFiring key requestID now) (.failed e true) (w.putFiring key requestID now)
  | takeOver {key : FiringKey} (requestID : String) (now : Int) {before : Int}
      (h : w.reclaimable key before = true) :
      Effect i w (.reclaimFiring key requestID now before) (.done true)
        ((w.takeOver key requestID now).claimed i key requestID now)
  | takeOverUntold {key : FiringKey} (requestID : String) (now : Int) {before : Int} (e : String)
      (h : w.reclaimable key before = true) :
      Effect i w (.reclaimFiring key requestID now before) (.failed e true)
        (w.takeOver key requestID now)
  | settle (key : FiringKey) (status : FiringStatus) (err : String) (now : Int) (r : Wrote Unit) :
      Effect i w (.finishFiring key status err now) r
        ((w.settle i key status err now).setClaim i none)
  | giveUp (key : FiringKey) (status : FiringStatus) (err : String) (now : Int) (e : String) :
      Effect i w (.finishFiring key status err now) (.failed e false) (w.setClaim i none)
  | reset {key : FiringKey} (updatedAt : Int) {before : Int} (r : Wrote Bool)
      (h : w.resettable key before = true) :
      Effect i w (.resetFiring key updatedAt before) r (w.reset key updatedAt)

variable {r : o.Res}

theorem alive_of_sem (h : sem i w o r = some w') : w.dead i = false := by
  cases hdead : w.dead i with
  | false => rfl
  | true => simp [sem, hdead] at h

theorem answer_of_sem (h : sem i w o r = some w') : answer i w o r = some w' := by
  unfold sem at h
  rwa [alive_of_sem h] at h

/-- A write that may have been carried out. -/
theorem Effect.ite {w₁ : World ι} {c : Prop} [Decidable c] (h : c → Effect i w o r w₁) :
    Effect i w o r (if c then w₁ else w) := by
  split
  · exact h ‹_›
  · exact .nothing _ _

theorem effect_of_sem (h : sem i w o r = some w') : Effect i w o r w' := by
  have h := answer_of_sem h
  cases o with
  | now =>
    obtain ⟨hle, rfl⟩ := of_guard h
    exact .now hle
  | newRequestID =>
    obtain ⟨hfresh, rfl⟩ := of_guard_not h
    exact .mint hfresh
  | ctxDone | runChain _ _ | createPartition _ | indexPartition _ =>
    cases h
    exact .nothing _ _
  | crash host =>
    cases h
    exact .crash host r
  | registerPartition period =>
    cases r with
    | done a =>
      cases h
      exact .register period _
    | failed e carriedOut =>
      cases h
      exact .ite fun _ => .register period _
  | insertEvent period ev =>
    cases r with
    | done nid =>
      obtain ⟨⟨hp, -⟩, rfl⟩ := of_guard h
      exact .append ev _ hp
    | failed e carriedOut =>
      cases h
      exact .ite fun hc => .append ev _ hc.2
  | maxNID period =>
    cases r with
    | ok m =>
      obtain ⟨-, rfl⟩ := of_guard h
      exact .ite fun _ => .listing _ _ _
    | error e =>
      cases h
      exact .listing _ _ _
  | listPartitions _ _ | selectEvents _ _ _ _ =>
    cases r with
    | ok found =>
      obtain ⟨-, rfl⟩ := of_guard h
      exact .listing _ _ _
    | error e =>
      cases h
      exact .listing _ _ _
  | getCursor consumer scope =>
    cases r with
    | ok nid =>
      obtain ⟨-, rfl⟩ := of_guard h
      exact .nothing _ _
    | error e =>
      cases h
      exact .nothing _ _
  | setCursor consumer scope nid =>
    cases r with
    | done a =>
      cases h
      exact .cursor consumer scope nid _
    | failed e carriedOut =>
      cases h
      exact .ite fun _ => .cursor consumer scope nid _
  | insertFiring key requestID now =>
    cases r with
    | done affected =>
      cases affected with
      | true =>
        obtain ⟨hfree, rfl⟩ := of_guard h
        exact .claim requestID now hfree
      | false =>
        obtain ⟨-, rfl⟩ := of_guard_not h
        exact .nothing _ _
    | failed e carriedOut =>
      cases h
      refine .ite fun hc => ?_
      subst hc
      exact .claimUntold key requestID now e
  | reclaimFiring key requestID now before =>
    cases r with
    | done affected =>
      cases affected with
      | true =>
        obtain ⟨hstale, rfl⟩ := of_guard h
        exact .takeOver requestID now hstale
      | false =>
        obtain ⟨-, rfl⟩ := of_guard_not h
        exact .nothing _ _
    | failed e carriedOut =>
      cases h
      refine .ite fun ⟨hc, hstale⟩ => ?_
      subst hc
      exact .takeOverUntold requestID now e hstale
  | finishFiring key status err now =>
    cases r with
    | done a =>
      cases h
      exact .settle key status err now _
    | failed e carriedOut =>
      cases h
      cases carriedOut with
      | true => exact .settle key status err now _
      | false => exact .giveUp key status err now e
  | resetFiring key updatedAt before =>
    cases r with
    | done affected =>
      cases affected with
      | true =>
        obtain ⟨hready, rfl⟩ := of_guard h
        exact .reset updatedAt _ hready
      | false =>
        obtain ⟨-, rfl⟩ := of_guard_not h
        exact .nothing _ _
    | failed e carriedOut =>
      cases h
      exact .ite fun hc => .reset updatedAt _ hc.2

end

end Contenox.Events
