/-
# The file lease

A lease is a file that says who holds it and until when.  Whoever reads it to decide something, or
writes it, first makes a directory beside it, the acquisition lock, and removes the directory
afterwards.  A directory that is too old is taken for the remains of a process that died, and anybody
may remove it; what is removed is whatever stands under that name at that moment.

File operations may fail.  A process may die between any two steps; its directory and its record stay.
-/
import Contenox.Lib.Threads

namespace Contenox.Lease

open Lib

/-! ## 1. Records -/

/-- The errors callers ask for, and the others. -/
inductive ErrKind
  | held
  | lost
  | acquireTimeout
  | other
  deriving DecidableEq, Repr

structure Err where
  kind : ErrKind
  msg : String
  deriving DecidableEq, Repr

def errHeld (detail : String) : Err :=
  ⟨.held, "liblease: lease is held by another instance: " ++ detail⟩

def errLost (detail : String) : Err :=
  ⟨.lost, "liblease: lease was taken over by another instance: " ++ detail⟩

def errAcquireTimeout (detail : String) : Err :=
  ⟨.acquireTimeout, "liblease: timed out waiting for the acquisition lock: " ++ detail⟩

/-- `Record`; times and durations are nanoseconds. -/
structure Record where
  instanceID : String
  pid : Int
  host : String
  acquiredAt : Int
  renewedAt : Int
  ttl : Int
  metadata : List (String × String)
  deriving DecidableEq, Repr

def Record.expiresAt (r : Record) : Int := r.renewedAt + r.ttl

def Record.expired (r : Record) (now : Int) : Prop := r.expiresAt < now

instance (r : Record) (now : Int) : Decidable (r.expired now) :=
  inferInstanceAs (Decidable (r.expiresAt < now))

def millisecond : Int := 1000000

/-- `leaseLockStaleAfter`, five seconds. -/
def leaseLockStaleAfter : Int := 5000 * millisecond

/-- The age at which a call with this TTL takes the acquisition lock for stale. -/
def staleAfter (ttl : Int) : Int :=
  let bound := if 0 < ttl ∧ ttl < leaseLockStaleAfter then ttl else leaseLockStaleAfter
  if bound < 100 * millisecond then 100 * millisecond else bound

/-! ## 2. Steps -/

inductive Made
  | made
  | exists
  | failed (e : String)
  deriving DecidableEq, Repr

inductive Stat
  | info (modTime : Int)
  | notExist
  | failed (e : String)
  deriving DecidableEq, Repr

/-- `readRecord`; a file that does not parse is among the failures. -/
inductive Read
  | record (r : Record)
  | notExist
  | failed (e : String)
  deriving DecidableEq, Repr

inductive Op (π : Type)
  | tick
  | crash (p : π)
  | ctxErr
  | mkdirLock (bound : Int)
  | statLock
  | now
  | removeStale
  | poll
  | unlock
  | newInstanceID
  | writeTemp (record : Record)
  | link (record : Record)
  -- `challenge`: for a lease in the way of a new one, and not for one's own
  | readRecord (challenge : Bool)
  | rename (record : Record)
  | hold (record : Record)
  | lockHandle (h : Nat)
  | handleRecord (h : Nat)
  | setRenewedAt (h : Nat) (now : Int)
  | removeFile (h : Nat)
  | unlockHandle (h : Nat)

def Op.Res {π : Type} : Op π → Type
  | .tick | .now => Int
  | .crash _ | .setRenewedAt _ _ | .unlockHandle _ => Unit
  | .ctxErr | .poll | .writeTemp _ | .rename _ | .removeFile _ => Option String
  | .mkdirLock _ | .link _ => Made
  | .statLock => Stat
  | .removeStale | .unlock | .lockHandle _ => Bool
  | .newInstanceID => String
  | .readRecord _ => Read
  | .hold _ => Nat
  | .handleRecord _ => Record

abbrev LeaseProg (π α : Type) := Prog (Op π) Op.Res α

abbrev issue {π : Type} (o : Op π) : LeaseProg π o.Res := Prog.perform o

/-- What stands under the path of the lease. -/
inductive LeaseFile
  | absent
  | corrupt
  | record (r : Record)
  deriving DecidableEq, Repr

/-- A `Lease`, with the process it belongs to.  `released` is set when its file has been removed by
`ReleaseContext`. -/
structure Handle (ι π : Type) where
  proc : π
  record : Record
  released : Bool
  mu : Option ι

/-- What a handle says of the lease. -/
structure Held (π : Type) where
  proc : π
  record : Record
  released : Bool

def Handle.held {ι π : Type} (hd : Handle ι π) : Held π := ⟨hd.proc, hd.record, hd.released⟩

/-- A thread between the making of the directory and its removal: since when, with what bound, and the
handle whose record is newer than the file. -/
structure Inside where
  since : Int
  bound : Int
  renewing : Option Nat
  deriving DecidableEq, Repr

structure World (ι π : Type) where
  clock : Int
  crashed : List π
  /-- when the directory was made -/
  lockDir : Option Int
  file : LeaseFile
  handles : List (Handle ι π)
  inside : ι → Option Inside
  /-- the instance ids given out -/
  ids : List String

namespace World

variable {ι π : Type}

variable [DecidableEq ι] (w : World ι π) (i : ι)

def enter (bound : Int) : World ι π :=
  { w with
    lockDir := some w.clock
    inside := Function.update w.inside i (some ⟨w.clock, bound, none⟩) }

/-- The thread is through with the directory; whether the removal went through is in the answer. -/
def leave (removed : Bool) : World ι π :=
  { w with
    lockDir := if removed then none else w.lockDir
    inside := Function.update w.inside i none }

def setRenewing (h : Option Nat) : World ι π :=
  { w with
    inside := Function.update w.inside i ((w.inside i).map fun s => { s with renewing := h }) }

def modifyHandle (h : Nat) (f : Handle ι π → Handle ι π) : World ι π :=
  { w with handles := w.handles.modify h f }

def leases : List (Held π) := w.handles.map Handle.held

end World

section Semantics

variable [DecidableEq ι] [DecidableEq π] (proc : ι → π)

/-- The handle is there, and belongs to the process of the thread. -/
def World.owns (w : World ι π) (i : ι) (h : Nat) : Option (Handle ι π) :=
  (w.handles[h]?).filter fun hd => hd.proc = proc i

/-- What a step of a thread does. -/
def act : Lib.Semantics ι (World ι π) (Op π) Op.Res
  | _, w, .tick, (t : Int) => if w.clock ≤ t then some { w with clock := t } else none
  | _, w, .crash p, () => some { w with crashed := p :: w.crashed }
  | _, w, .ctxErr, _ => some w
  | i, w, .mkdirLock bound, .made => if w.lockDir = none then some (w.enter i bound) else none
  | _, w, .mkdirLock _, .exists => if w.lockDir = none then none else some w
  | _, w, .mkdirLock _, .failed _ => some w
  | _, w, .statLock, .info t => if w.lockDir = some t then some w else none
  | _, w, .statLock, .notExist => if w.lockDir = none then some w else none
  | _, w, .statLock, .failed _ => some w
  | _, w, .now, (t : Int) => if t = w.clock then some w else none
  | _, w, .removeStale, true => some { w with lockDir := none }
  | _, w, .removeStale, false => some w
  | _, w, .poll, _ => some w
  | i, w, .unlock, removed => some (w.leave i removed)
  | _, w, .newInstanceID, (id : String) =>
    if id ∈ w.ids then none else some { w with ids := id :: w.ids }
  | _, w, .writeTemp _, _ => some w
  | _, w, .link record, .made =>
    if w.file = .absent then some { w with file := .record record } else none
  | _, w, .link _, .exists => if w.file = .absent then none else some w
  | _, w, .link _, .failed _ => some w
  | _, w, .readRecord _, .record r => if w.file = .record r then some w else none
  | _, w, .readRecord _, .notExist => if w.file = .absent then some w else none
  | _, w, .readRecord _, .failed _ => some w
  | i, w, .rename record, none => some ({ w with file := .record record }.setRenewing i none)
  | _, w, .rename _, some _ => some w
  | i, w, .hold record, (h : Nat) =>
    if h = w.handles.length then some { w with handles := w.handles ++ [⟨proc i, record, false, none⟩] }
    else none
  | i, w, .lockHandle h, true =>
    if (w.owns proc i h).bind Handle.mu = none ∧ w.owns proc i h ≠ none then
      some (w.modifyHandle h fun hd => { hd with mu := some i })
    else none
  | i, w, .lockHandle h, false => if w.owns proc i h = none then some w else none
  | _, w, .handleRecord h, (r : Record) =>
    if (w.handles[h]?).map Handle.record = some r then some w else none
  | i, w, .setRenewedAt h now, () =>
    some ((w.modifyHandle h fun hd =>
      { hd with record := { hd.record with renewedAt := now } }).setRenewing i (some h))
  | _, w, .removeFile h, none =>
    if w.file = .absent then none
    else some ({ w with file := .absent }.modifyHandle h fun hd => { hd with released := true })
  | _, w, .removeFile _, some _ => some w
  | _, w, .unlockHandle h, () => some (w.modifyHandle h fun hd => { hd with mu := none })

/-- The dead take no steps. -/
def sem : Lib.Semantics ι (World ι π) (Op π) Op.Res := fun i w o r =>
  if proc i ∈ w.crashed then none else act proc i w o r

end Semantics

/-! ## 3. The acquisition lock -/

/-- The path of the lease, and the formats its errors use. -/
structure Texts where
  path : String
  quote : String → String
  rfc3339 : Int → String

section Programs

variable (tx : Texts)

/-- The loop of `acquireLeaseLock`, of which there are at most so many rounds. -/
def pollLock (bound : Int) : Nat → LeaseProg π (Except Err Unit)
  | 0 => return .error (errAcquireTimeout (tx.quote (tx.path ++ ".acquire.lock") ++
      ": context deadline exceeded"))
  | rounds + 1 => do
    match ← issue (.mkdirLock bound) with
    | .made => return .ok ()
    | .failed e => return .error ⟨.other, e⟩
    | .exists =>
      match ← issue .statLock with
      | .failed e => return .error ⟨.other, e⟩
      | .notExist => pollLock bound rounds
      | .info modTime =>
        let now : Int ← issue .now
        if bound < now - modTime then do
          let _ : Bool ← issue .removeStale
          pollLock bound rounds
        else
          match ← issue .poll with
          | some e =>
            return .error (errAcquireTimeout (tx.quote (tx.path ++ ".acquire.lock") ++ ": " ++ e))
          | none => pollLock bound rounds

def acquireLeaseLock (rounds : Nat) (ttl : Int) : LeaseProg π (Except Err Unit) := do
  match ← issue .ctxErr with
  | some e => return .error (errAcquireTimeout e)
  | none => pollLock tx (staleAfter ttl) rounds

/-- Something done under the acquisition lock, which is removed afterwards. -/
def underLock {α : Type} (work : LeaseProg π α) : LeaseProg π α := do
  let r ← work
  let _ : Bool ← issue .unlock
  return r

/-! ## 4. Acquire -/

/-- `writeTemp` and what is done with its file. -/
def writeRecord (record : Record) : LeaseProg π (Option String) := do
  match ← issue (.writeTemp record) with
  | some e => return some e
  | none => issue (.rename record)

/-- `tryCreate`: whether the file was not there and is now. -/
def tryCreate (record : Record) : LeaseProg π (Except Err Bool) := do
  match ← issue (.writeTemp record) with
  | some e => return .error ⟨.other, e⟩
  | none =>
    match ← issue (.link record) with
    | .made => return .ok true
    | .exists => return .ok false
    | .failed e => return .error ⟨.other, e⟩

/-- The lease that stands in the way of a challenger at this time. -/
def Read.standing (now : Int) : Read → Option Record
  | .record cur => if cur.expired now then none else some cur
  | _ => none

/-- The end of a takeover: is the file what was written? -/
def confirm (record : Record) : LeaseProg π (Except Err Nat) := do
  match ← issue (.readRecord false) with
  | .notExist => return .error ⟨.other, "open " ++ tx.path ++ ": no such file or directory"⟩
  | .failed e => return .error ⟨.other, e⟩
  | .record after =>
    if after.instanceID ≠ record.instanceID then
      return .error (errHeld ("lost takeover race to instance " ++ after.instanceID))
    else do
      let h : Nat ← issue (.hold record)
      return .ok h

/-- `AcquireContext` under the lock. -/
def claim (ttl pid : Int) (host : String) (metadata : List (String × String)) :
    LeaseProg π (Except Err Nat) := do
  let now : Int ← issue .now
  let id : String ← issue .newInstanceID
  let record : Record := ⟨id, pid, host, now, now, ttl, metadata⟩
  match ← tryCreate record with
  | .error e => return .error e
  | .ok true => do
    let h : Nat ← issue (.hold record)
    return .ok h
  | .ok false =>
    let read : Read ← issue (.readRecord true)
    match read.standing now with
    | some cur =>
      return .error (errHeld ("instance " ++ cur.instanceID ++ " (pid " ++ toString cur.pid ++
        ") until " ++ tx.rfc3339 cur.expiresAt))
    | none =>
      match ← writeRecord record with
      | some e => return .error ⟨.other, e⟩
      | none => confirm tx record

/-- `AcquireContext`: the handle. -/
def acquireContext (rounds : Nat) (ttl pid : Int) (host : String)
    (metadata : List (String × String)) : LeaseProg π (Except Err Nat) := do
  if ttl ≤ 0 then return .error ⟨.other, "liblease: ttl must be positive"⟩
  else
    match ← acquireLeaseLock tx rounds ttl with
    | .error e => return .error e
    | .ok () => underLock (claim tx ttl pid host metadata)

/-! ## 5. Renew and release -/

/-- `RenewContext` under the lock.  The record in memory is changed before the file. -/
def extend (h : Nat) : LeaseProg π (Except Err Unit) := do
  match ← issue (.readRecord false) with
  | .notExist =>
    return .error ⟨.other, "liblease: renew: open " ++ tx.path ++ ": no such file or directory"⟩
  | .failed e => return .error ⟨.other, "liblease: renew: " ++ e⟩
  | .record cur =>
    let record : Record ← issue (.handleRecord h)
    if cur.instanceID ≠ record.instanceID then
      return .error (errLost ("now held by " ++ cur.instanceID))
    else
      let now : Int ← issue .now
      if record.expired now then return .error (errLost "lease expired before renewal")
      else
        let renewedAt : Int ← issue .now
        issue (.setRenewedAt h renewedAt)
        let own : Record ← issue (.handleRecord h)
        match ← writeRecord own with
        | some e => return .error ⟨.other, e⟩
        | none => return .ok ()

/-- `ReleaseContext` under the lock. -/
def relinquish (h : Nat) : LeaseProg π (Except Err Unit) := do
  match ← issue (.readRecord false) with
  | .notExist => return .ok ()
  | .failed e => return .error ⟨.other, e⟩
  | .record cur =>
    let record : Record ← issue (.handleRecord h)
    if cur.instanceID ≠ record.instanceID then return .ok ()
    else
      match ← issue (.removeFile h) with
      | some e => return .error ⟨.other, e⟩
      | none => return .ok ()

/-- A method of a handle: its mutex, the acquisition lock with the handle's TTL, the work.  `wrap` is
what it makes of a failure to get the lock. -/
def withHandle (rounds h : Nat) (wrap : Err → Err) (work : LeaseProg π (Except Err Unit)) :
    LeaseProg π (Except Err Unit) := do
  let own : Bool ← issue (.lockHandle h)
  if own then do
    let record : Record ← issue (.handleRecord h)
    let r ← (do
      match ← acquireLeaseLock tx rounds record.ttl with
      | .error e => return .error (wrap e)
      | .ok () => underLock work : LeaseProg π (Except Err Unit))
    issue (.unlockHandle h)
    return r
  else return .ok ()

/-- `RenewContext`. -/
def renewContext (rounds h : Nat) : LeaseProg π (Except Err Unit) :=
  withHandle tx rounds h (fun e => ⟨e.kind, "liblease: renew lock: " ++ e.msg⟩) (extend tx h)

/-- `ReleaseContext`. -/
def releaseContext (rounds h : Nat) : LeaseProg π (Except Err Unit) :=
  withHandle tx rounds h id (relinquish h)

/-! ## 6. Processes -/

/-- What a thread does: one of the three calls, a method through any handle of its process; and, for the
environment, let time pass or let a process die. -/
inductive Action (π : Type)
  | acquire (rounds : Nat) (ttl pid : Int) (host : String) (metadata : List (String × String))
  | renew (rounds h : Nat)
  | release (rounds h : Nat)
  | tick
  | crash (p : π)

def Action.prog : Action π → LeaseProg π Unit
  | .acquire rounds ttl pid host metadata => do
    let _ ← acquireContext tx rounds ttl pid host metadata
    return ()
  | .renew rounds h => do
    let _ ← renewContext tx rounds h
    return ()
  | .release rounds h => do
    let _ ← releaseContext tx rounds h
    return ()
  | .tick => do
    let _ : Int ← issue .tick
    return ()
  | .crash p => issue (.crash p)

def process : List (Action π) → LeaseProg π Unit
  | [] => return ()
  | a :: rest => do
    a.prog tx
    process rest

end Programs

end Contenox.Lease
