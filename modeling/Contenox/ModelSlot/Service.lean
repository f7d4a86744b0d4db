/-
# The slot service

The entry points, as programs over the steps of `Slot`.  Each takes the operation lock before it
touches the slot and gives it back at the end; what is taken out of the slot in between is in the hands
of the program that took it.  A decode keeps the lock while its stream is being forwarded, after the
call has returned to its client.

Handles live in the world, so that any process can use any of them.
-/
import Contenox.ModelSlot.Slot

namespace Contenox.ModelSlot

open Lib

/-- `Service`, as it is configured. -/
structure Config where
  owner : String
  idleTTL : Int
  deriving DecidableEq, Repr

def checkFence (cfg : Config) (owner : String) : Option Err :=
  if cfg.owner = "" then none
  else if owner ≠ cfg.owner then some errStaleFence
  else none

/-! ## 1. Locking -/

/-- `lockOperation`: a service that was shut down gives nobody the lock.  With a background context the
wait for it is not cut short. -/
def lockOperation (cancellable : Bool) : SlotProg (Option Err) := do
  match ← issue (.acquire cancellable) with
  | some e => return some e
  | none =>
    let stopped : Bool ← issue .isStopped
    if stopped then do
      issue .release
      return some errSessionClosed
    else return none

/-- An entry point: the lock, the context again, the work, and the deferred unlock. -/
def underLock {α : Type} (work : SlotProg (Except Err α)) : SlotProg (Except Err α) := do
  match ← lockOperation true with
  | some e => return .error e
  | none =>
    match ← issue .ctxErr with
    | some e => do
      issue .release
      return .error e
    | none => do
      let r ← work
      issue .release
      return r

/-- What an entry point checks first. -/
def admitted {α : Type} (cfg : Config) (owner : String) (go : SlotProg (Except Err α)) :
    SlotProg (Except Err α) := do
  match ← issue .ctxErr with
  | some e => return .error e
  | none =>
    match checkFence cfg owner with
    | some e => return .error e
    | none => go

/-- ...and, with the path of the model to be found. -/
def resolved {α : Type} (cfg : Config) (req : OpenSessionRequest)
    (go : OpenSessionRequest → SlotProg (Except Err α)) : SlotProg (Except Err α) :=
  admitted cfg req.ownerInstanceID do
    match ← issue (.resolveModelPath req) with
    | .error e => return .error e
    | .ok req => go req

/-! ## 2. Sessions -/

/-- `captureSnapshot`, up to the files it writes. -/
def captureSnapshot (old : ActiveSlot) : SlotProg Unit := do
  let wanted : Bool ← issue (.snapshotDir old.snapshotKey)
  if wanted then do
    let _ ← issue (.snapshot old.sess)
    return ()
  else return ()

/-- A session that was taken out of the slot is closed. -/
def closeOld (old : ActiveSlot) : SlotProg (Option Err) := do
  captureSnapshot old
  issue (.closeSession old.sess)

/-- `openWithSnapshot`: the session, or the error and what came with it; and the key. -/
def openWithSnapshot (req : OpenSessionRequest) : SlotProg (Opened × String) := do
  let key : String ← issue (.snapshotKey req)
  match ← issue (.openSession req) with
  | .failed e sess => return (.failed e sess, key)
  | .opened sess =>
    let found : Bool ← issue (.readSnapshot key)
    if found then
      match ← issue (.restore sess) with
      | none => return (.opened sess, key)
      | some _ =>
        match ← issue (.closeSession sess) with
        | some e => return (.failed e none, key)
        | none => do
          let again : Opened ← issue (.openSession req)
          return (again, key)
    else return (.opened sess, key)

/-- The second half of `LoadModel` and `OpenSession`: the generation of the new resident session. -/
def openModel (req : OpenSessionRequest) (refs : Nat) (explicit : Bool) :
    SlotProg (Except Err Nat) := do
  match ← openWithSnapshot req with
  | (.failed e (some sess), _) => do
    let _ ← issue (.closeSession sess)
    issue (.enter (.finishLoadError (loadError e)))
    return .error (loadError e)
  | (.failed e none, _) => do
    issue (.enter (.finishLoadError (loadError e)))
    return .error (loadError e)
  | (.opened sess, key) => do
    let gen : Nat ← issue (.enter (.install req sess refs explicit key))
    return .ok gen

def markReadyOrError (err : Option Err) : SlotProg Unit := do
  match ← issue (.enter (.markReadyOrError err)) with
  | none => return ()
  | some sess => do
    let _ ← issue (.closeSession sess)
    return ()

/-! ## 3. Entry points -/

variable (cfg : Config)

/-- `LoadModel`: the model and its generation. -/
def loadModel (expected : Nat) (req : OpenSessionRequest) :
    SlotProg (Except Err (OpenSessionRequest × Nat)) :=
  resolved cfg req fun req => underLock do
    match ← issue (.enter (.loadCheck expected req)) with
    | .refused e => return .error e
    | .resident req gen => return .ok (req, gen)
    | .proceed none => do
      let r ← openModel req 0 true
      return r.map (req, ·)
    | .proceed (some old) =>
      match ← closeOld old with
      | some e => do
        issue (.enter (.closeDone (some e)))
        return .error e
      | none => do
        let r ← openModel req 0 true
        return r.map (req, ·)

/-- The end of `UnloadModel` and `release`. -/
def closeAndSettle (old : ActiveSlot) : SlotProg (Except Err Unit) := do
  let err : Option Err ← closeOld old
  issue (.enter (.closeDone err))
  match err with
  | some e => return .error e
  | none => return .ok ()

/-- `UnloadModel`. -/
def unloadModel (owner : String) (expected : Nat) : SlotProg (Except Err Unit) :=
  admitted cfg owner <| underLock do
    match ← issue (.enter (.unloadCheck expected)) with
    | .refused e => return .error e
    | .unloaded => return .ok ()
    | .detached old => closeAndSettle old

/-- `OpenSession`: the new handle. -/
def openSession (req : OpenSessionRequest) : SlotProg (Except Err Nat) := do
  let r ← resolved cfg req fun req => underLock do
    match ← issue (.enter (.openCheck req)) with
    | .refused e => return .error e
    | .shared gen => return .ok gen
    | .proceed => openModel req 1 false
  match r with
  | .error e => return .error e
  | .ok gen => do
    let h : Nat ← issue (.newHandle gen)
    return .ok h

/-- The end of `Embed`. -/
def embedNow (req : OpenSessionRequest) : SlotProg (Except Err Unit) := do
  let err : Option Err ← issue (.backendEmbed req)
  markReadyOrError err
  match err with
  | some e => return .error e
  | none => return .ok ()

/-- `Embed`. -/
def embed (req : OpenSessionRequest) : SlotProg (Except Err Unit) :=
  resolved cfg req fun req => underLock do
    match ← issue (.enter .embedCheck) with
    | .refused e => return .error e
    | .proceed => embedNow req
    | .detached old =>
      match ← closeOld old with
      | some e => do
        issue (.enter (.closeDone (some e)))
        return .error e
      | none => do
        issue (.enter .embedBusy)
        embedNow req

def release (gen : Nat) : SlotProg (Except Err Unit) := do
  match ← lockOperation false with
  | some e => return .error e
  | none => do
    let r ← (do
      match ← issue (.enter (.releaseCheck gen)) with
      | none => return .ok ()
      | some old => closeAndSettle old : SlotProg (Except Err Unit))
    issue .release
    return r

/-- `reapIdle`: it takes the lock only if it is free, and does not ask whether the service was shut
down. -/
def reapIdle : SlotProg Unit := do
  if cfg.idleTTL ≤ 0 then return ()
  else
    let free : Bool ← issue .tryAcquire
    if free then
      match ← issue (.enter .reapCheck) with
      | none => issue .release
      | some old => do
        let err : Option Err ← closeOld old
        issue (.enter (.reapDone err))
        issue .release
    else return ()

/-- `Shutdown`. -/
def shutdown : SlotProg (Except Err Unit) := do
  match ← lockOperation true with
  | some e => return .error e
  | none => do
    issue .stop
    match ← issue (.enter .shutdown) with
    | none => do
      issue .release
      return .ok ()
    | some old => do
      let err : Option Err ← closeOld old
      issue .release
      match err with
      | some e => return .error e
      | none => return .ok ()

/-! ## 4. Through a handle -/

/-- The methods of a handle that make one call. -/
inductive SessionOp
  | ensurePrefix
  | prefillSuffix
  | explainContext
  | snapshot
  | restore
  deriving DecidableEq, Repr

def SessionOp.name : SessionOp → String
  | .ensurePrefix => "ensure_prefix"
  | .prefillSuffix => "prefill_suffix"
  | .explainContext => "explain_context"
  | .snapshot => "snapshot"
  | .restore => "restore"

/-- `ExplainContext` reports no error. -/
def SessionOp.report : SessionOp → Option Err → Option Err
  | .explainContext, _ => none
  | _, err => err

/-- `withSession`, with the call it makes. -/
def withSession (h gen : Nat) (op : SessionOp) : SlotProg (Except Err Unit) :=
  underLock do
    match ← issue (.enter (.beginOperation gen op.name)) with
    | .refused e => return .error e
    | .begun sess => do
      issue (.call h sess op.name)
      let err : Option Err ← issue .finish
      markReadyOrError (op.report err)
      match op.report err with
      | some e => return .error e
      | none => return .ok ()

/-- `EnsurePrefix`, `PrefillSuffix`, `ExplainContext`, `Snapshot` and `Restore`; the last reads the state
from a file first. -/
def operate (h : Nat) (op : SessionOp) : SlotProg (Except Err Unit) := do
  match ← issue (.handle h) with
  | none => return .error errSessionClosed
  | some hd =>
    if hd.closed then return .error errSessionClosed
    else
      match op with
      | .restore =>
        match ← issue .readBlob with
        | some e => return .error e
        | none => withSession h hd.generation op
      | _ => withSession h hd.generation op

/-- The loop that forwards the chunks of a stream, of which there are at most so many. -/
def forwardChunks : Nat → Option Err → SlotProg Unit
  | 0, streamErr => do
    let _ : Option Err ← issue .finish
    markReadyOrError streamErr
  | chunks + 1, streamErr => do
    match ← issue .receive with
    | none => do
      let _ : Option Err ← issue .finish
      markReadyOrError streamErr
    | some chunkErr =>
      match ← issue .forward with
      | none => forwardChunks chunks (chunkErr.or streamErr)
      | some ctxErr => do
        -- nobody listens any more: the stream is not read to its end
        issue .abandon
        markReadyOrError (some ctxErr)

/-- `Decode`, with the goroutine it starts. -/
def decode (h chunks : Nat) : SlotProg (Except Err Unit) := do
  match ← issue (.handle h) with
  | none => return .error errSessionClosed
  | some hd =>
    if hd.closed then return .error errSessionClosed
    else underLock do
      match ← issue (.enter (.beginOperation hd.generation "decode")) with
      | .refused e => return .error e
      | .begun sess => do
        issue (.call h sess "decode")
        match ← issue .started with
        | some e => do
          let _ : Option Err ← issue .finish
          markReadyOrError (some e)
          return .error e
        | none => do
          forwardChunks chunks none
          return .ok ()

/-- `slotSession.Close`. -/
def closeHandle (h : Nat) : SlotProg (Except Err Unit) := do
  match ← issue (.closeHandle h) with
  | none => return .ok ()
  | some gen => release gen

/-! ## 5. Processes -/

/-- What a process does: call an entry point or a method of a handle; and, for the environment, let time
pass or let the backend end a stream that nobody reads. -/
inductive Action
  | loadModel (expected : Nat) (req : OpenSessionRequest)
  | unloadModel (owner : String) (expected : Nat)
  | openSession (req : OpenSessionRequest)
  | embed (req : OpenSessionRequest)
  | operate (h : Nat) (op : SessionOp)
  | decode (h chunks : Nat)
  | close (h : Nat)
  | reapIdle
  | shutdown
  | tick
  | streamEnds (h sess : Nat)

/-- A program whose answer nobody looks at. -/
def quietly {α : Type} (p : SlotProg α) : SlotProg Unit := do
  let _ ← p
  return ()

def Action.prog : Action → SlotProg Unit
  | .loadModel expected req => quietly (ModelSlot.loadModel cfg expected req)
  | .unloadModel owner expected => quietly (ModelSlot.unloadModel cfg owner expected)
  | .openSession req => quietly (ModelSlot.openSession cfg req)
  | .embed req => quietly (ModelSlot.embed cfg req)
  | .operate h op => quietly (ModelSlot.operate h op)
  | .decode h chunks => quietly (ModelSlot.decode h chunks)
  | .close h => quietly (closeHandle h)
  | .reapIdle => ModelSlot.reapIdle cfg
  | .shutdown => quietly ModelSlot.shutdown
  | .tick => quietly (issue .tick)
  | .streamEnds h sess => quietly (issue (.streamEnds h sess))

def process : List Action → SlotProg Unit
  | [] => return ()
  | a :: rest => do
    a.prog cfg
    process rest

end Contenox.ModelSlot
