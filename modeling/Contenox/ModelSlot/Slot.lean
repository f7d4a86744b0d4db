/-
# The model slot: its state, and what can happen to it in one step

The service holds one resident model.  Every entry point takes the operation lock and works under
it; the fields themselves are read and written in short sections under a second mutex, with calls
to the backend in between.  This file has the sections, and the steps a process can take: lock and
unlock, enter a section, call the backend.

A call that a client makes through a handle takes time: it is begun and ended by two steps.  A decode
ends when its stream is closed, but the service may stop listening when the client is gone, and the
stream is then left to the backend (`abandoned`).  Whether closing a session waits for such a stream is
the backend's business; `waits` says which.

`openSessions`, `closed`, `installed`, `running` and `abandoned` are kept to state the properties.
-/
import Contenox.Lib.Threads

namespace Contenox.ModelSlot

open Lib

/-! ## 1. Errors and requests -/

/-- The errors that are told apart by `errors.Is`. -/
inductive Sentinel
  | canceled
  | deadlineExceeded
  | staleFence
  | sessionClosed
  | sessionFatal
  | modelBusy
  | modelNotActive
  | modelSwitchRequired
  | modelLoadFailed
  | slotGenerationStale
  deriving DecidableEq, Repr

structure Err where
  msg : String
  kinds : List Sentinel
  deriving DecidableEq, Repr

def Err.is (e : Err) (s : Sentinel) : Bool := s ∈ e.kinds

def errStaleFence : Err := ⟨"stale owner fence token", [.staleFence]⟩
def errSessionClosed : Err := ⟨"session is closed", [.sessionClosed]⟩
def errModelBusy : Err := ⟨"modeld active model slot is busy", [.modelBusy]⟩
def errModelNotActive : Err := ⟨"requested model is not active in modeld", [.modelNotActive]⟩
def errModelSwitchRequired : Err :=
  ⟨"modeld active model slot must be switched", [.modelSwitchRequired]⟩
def errSlotGenerationStale : Err := ⟨"stale modeld slot generation", [.slotGenerationStale]⟩

def loadError (e : Err) : Err :=
  if e.is .canceled || e.is .deadlineExceeded then e
  else ⟨"modeld failed to load model: " ++ e.msg, .modelLoadFailed :: e.kinds⟩

structure OpenSessionRequest where
  ownerInstanceID : String
  modelName : String
  type : String
  digest : String
  path : String
  config : String
  adapters : List String
  deriving DecidableEq, Repr

def sameIdentity (a b : OpenSessionRequest) : Bool :=
  a.modelName = b.modelName && a.type = b.type && a.digest = b.digest && a.path = b.path &&
    a.config = b.config && a.adapters = b.adapters

/-! ## 2. The slot and its sections -/

inductive SlotState
  | empty
  | loading
  | ready
  | busy
  | switching
  | unloading
  | failed
  | shuttingDown
  | idle
  deriving DecidableEq, Repr

structure ActiveSlot where
  req : OpenSessionRequest
  sess : Nat
  generation : Nat
  refs : Nat
  explicit : Bool
  snapshotKey : String
  deriving DecidableEq, Repr

/-- The fields of `Service` that its mutex guards.  The generation is a `uint64` there and is a number
without bound here: it would take 2^64 loads and unloads to wrap around. -/
structure Slot where
  active : Option ActiveSlot
  generation : Nat
  state : SlotState
  busyOp : String
  lastErr : String
  lastActivity : Int
  deriving DecidableEq, Repr

/-- What `LoadModel` finds: it is refused, the model is there, or it has to be opened, after the old
one is closed. -/
inductive LoadVerdict
  | refused (e : Err)
  | resident (req : OpenSessionRequest) (generation : Nat)
  | proceed (old : Option ActiveSlot)
  deriving DecidableEq, Repr

inductive UnloadVerdict
  | refused (e : Err)
  | unloaded
  | detached (old : ActiveSlot)
  deriving DecidableEq, Repr

inductive OpenVerdict
  | refused (e : Err)
  | shared (generation : Nat)
  | proceed
  deriving DecidableEq, Repr

inductive BeginVerdict
  | refused (e : Err)
  | begun (sess : Nat)
  deriving DecidableEq, Repr

inductive EmbedVerdict
  | refused (e : Err)
  | proceed
  | detached (old : ActiveSlot)
  deriving DecidableEq, Repr

namespace Slot

variable (s : Slot) (now : Int)

/-- The resident session is taken out of the slot. -/
def detach (state : SlotState) (busyOp : String) : Slot :=
  { s with active := none, generation := s.generation + 1, state, busyOp, lastErr := "" }

def settle (state : SlotState) : Slot := { s with state, busyOp := "", lastErr := "" }

def loadCheck (expected : Nat) (req : OpenSessionRequest) : LoadVerdict × Slot :=
  if expected ≠ 0 ∧ expected ≠ s.generation then (.refused errSlotGenerationStale, s)
  else
    match s.active with
    | some a =>
      if sameIdentity a.req req then
        (.resident a.req a.generation, { s with
          active := some { a with explicit := true }
          state := .ready, busyOp := "", lastErr := "", lastActivity := now })
      else if 0 < a.refs then (.refused errModelBusy, s)
      else (.proceed (some a), s.detach .switching "switch")
    | none => (.proceed none, { s with state := .loading, busyOp := "load", lastErr := "" })

/-- The end of `LoadModel` and `OpenSession`: the new session becomes the resident one. -/
def install (req : OpenSessionRequest) (sess refs : Nat) (explicit : Bool) (snapshotKey : String) :
    Nat × Slot :=
  (s.generation + 1, { s with
    generation := s.generation + 1
    active := some ⟨req, sess, s.generation + 1, refs, explicit, snapshotKey⟩
    state := .ready, busyOp := "", lastErr := "", lastActivity := now })

def unloadCheck (expected : Nat) : UnloadVerdict × Slot :=
  if expected ≠ 0 ∧ expected ≠ s.generation then (.refused errSlotGenerationStale, s)
  else
    match s.active with
    | none => (.unloaded, s.settle .empty)
    | some a =>
      if 0 < a.refs then (.refused errModelBusy, s)
      else (.detached a, s.detach .unloading "unload")

def openCheck (req : OpenSessionRequest) : OpenVerdict × Slot :=
  match s.active with
  | some a =>
    if sameIdentity a.req req then
      if 0 < a.refs then (.refused errModelBusy, s)
      else (.shared a.generation, { s with
        active := some { a with refs := 1 }
        state := .ready, busyOp := "", lastErr := "", lastActivity := now })
    else if 0 < a.refs then (.refused errModelBusy, s)
    else (.refused errModelSwitchRequired, s)
  | none => (.proceed, { s with state := .loading, busyOp := "load", lastErr := "" })

def embedBusy : Slot := { s with state := .busy, busyOp := "embed" }

def embedCheck : EmbedVerdict × Slot :=
  match s.active with
  | some a =>
    if 0 < a.refs ∨ a.explicit then (.refused errModelBusy, s)
    else (.detached a, s.detach .unloading "embed")
  | none => (.proceed, s.embedBusy)

/-- The first section of `release`. -/
def releaseCheck (idleTTL : Int) (gen : Nat) : Option ActiveSlot × Slot :=
  match s.active with
  | none => (none, s)
  | some a =>
    if a.generation ≠ gen then (none, s)
    else
      let a := { a with refs := a.refs - 1 }
      if 0 < a.refs ∨ a.explicit ∨ 0 < idleTTL then
        (none, { s with active := some a, state := .ready, busyOp := "", lastActivity := now })
      else (some a, s.detach .unloading "unload")

/-- `reapIdle`, under both locks. -/
def reapCheck (idleTTL : Int) : Option ActiveSlot × Slot :=
  match s.active with
  | none => (none, s)
  | some a =>
    if s.state ≠ .ready ∨ now - s.lastActivity < idleTTL then (none, s)
    else (some a, s.detach .idle "idle_reap")

def reapDone (err : Option Err) : Slot :=
  match err with
  | some e => { s with busyOp := "", state := .failed, lastErr := e.msg }
  | none => { s with busyOp := "", state := .idle }

/-- `finishCloseError`, and what a failed close leaves in `UnloadModel` and `release`. -/
def finishCloseError (e : Err) : Slot := { s with state := .failed, busyOp := "", lastErr := e.msg }

def closeDone (err : Option Err) : Slot :=
  match err with
  | some e => s.finishCloseError e
  | none => s.settle .empty

def finishLoadError (e : Err) : Slot :=
  { s with
    busyOp := "", lastErr := e.msg
    state := if e.is .canceled || e.is .deadlineExceeded then .empty else .failed }

def beginOperation (gen : Nat) (op : String) : BeginVerdict × Slot :=
  match s.active with
  | none =>
    if gen ≠ 0 ∧ gen ≠ s.generation then (.refused errSlotGenerationStale, s)
    else (.refused errModelNotActive, s)
  | some a =>
    if a.generation ≠ gen then (.refused errSlotGenerationStale, s)
    else (.begun a.sess, { s with state := .busy, busyOp := op, lastErr := "", lastActivity := now })

/-- The section of `markReadyOrError`; the session it returns is closed afterwards. -/
def markReadyOrError (err : Option Err) : Option Nat × Slot :=
  let s := { s with busyOp := "", lastActivity := now }
  let ready := { s with state := if s.active.isNone then .empty else .ready }
  match err with
  | none => (none, ready)
  | some e =>
    if e.is .canceled then (none, ready)
    else
      let s := { s with lastErr := e.msg }
      if e.is .sessionFatal then
        match s.active with
        | some a => (some a.sess,
            { s with active := none, generation := s.generation + 1, state := .failed })
        | none => (none, { s with state := .failed })
      else if e.is .sessionClosed || e.is .slotGenerationStale then (none, { s with state := .failed })
      else (none, { ready with lastErr := e.msg })

def shutdown : Option ActiveSlot × Slot :=
  (s.active, { s with
    active := none, generation := s.generation + 1, state := .shuttingDown })

end Slot

/-- The sections under the mutex. -/
inductive Section
  | loadCheck (expected : Nat) (req : OpenSessionRequest)
  | install (req : OpenSessionRequest) (sess refs : Nat) (explicit : Bool) (snapshotKey : String)
  | unloadCheck (expected : Nat)
  | openCheck (req : OpenSessionRequest)
  | embedCheck
  | embedBusy
  | releaseCheck (gen : Nat)
  | reapCheck
  | reapDone (err : Option Err)
  | closeDone (err : Option Err)
  | finishLoadError (e : Err)
  | beginOperation (gen : Nat) (op : String)
  | markReadyOrError (err : Option Err)
  | shutdown

def Section.Res : Section → Type
  | .loadCheck _ _ => LoadVerdict
  | .install _ _ _ _ _ => Nat
  | .unloadCheck _ => UnloadVerdict
  | .openCheck _ => OpenVerdict
  | .embedCheck => EmbedVerdict
  | .embedBusy | .reapDone _ | .closeDone _ | .finishLoadError _ => Unit
  | .releaseCheck _ | .reapCheck | .shutdown => Option ActiveSlot
  | .beginOperation _ _ => BeginVerdict
  | .markReadyOrError _ => Option Nat

def Section.decEq : (s : Section) → DecidableEq s.Res
  | .loadCheck _ _ => inferInstanceAs (DecidableEq LoadVerdict)
  | .install _ _ _ _ _ => inferInstanceAs (DecidableEq Nat)
  | .unloadCheck _ => inferInstanceAs (DecidableEq UnloadVerdict)
  | .openCheck _ => inferInstanceAs (DecidableEq OpenVerdict)
  | .embedCheck => inferInstanceAs (DecidableEq EmbedVerdict)
  | .embedBusy | .reapDone _ | .closeDone _ | .finishLoadError _ => inferInstanceAs (DecidableEq Unit)
  | .releaseCheck _ | .reapCheck | .shutdown => inferInstanceAs (DecidableEq (Option ActiveSlot))
  | .beginOperation _ _ => inferInstanceAs (DecidableEq (BeginVerdict))
  | .markReadyOrError _ => inferInstanceAs (DecidableEq (Option Nat))

instance (s : Section) : DecidableEq s.Res := s.decEq

/-- What a section answers and leaves, at a time and with the configured idle time. -/
def Section.run (now idleTTL : Int) (s : Slot) : (sec : Section) → sec.Res × Slot
  | .loadCheck expected req => s.loadCheck now expected req
  | .install req sess refs explicit key => s.install now req sess refs explicit key
  | .unloadCheck expected => s.unloadCheck expected
  | .openCheck req => s.openCheck now req
  | .embedCheck => s.embedCheck
  | .embedBusy => ((), s.embedBusy)
  | .releaseCheck gen => s.releaseCheck now idleTTL gen
  | .reapCheck => s.reapCheck now idleTTL
  | .reapDone err => ((), s.reapDone err)
  | .closeDone err => ((), s.closeDone err)
  | .finishLoadError e => ((), s.finishLoadError e)
  | .beginOperation gen op => s.beginOperation now gen op
  | .markReadyOrError err => s.markReadyOrError now err
  | .shutdown => s.shutdown

/-- A section that gives this answer. -/
def Section.step (now idleTTL : Int) (s : Slot) (sec : Section) (r : sec.Res) : Option Slot :=
  if (sec.run now idleTTL s).1 = r then some (sec.run now idleTTL s).2 else none

/-! ## 3. Steps -/

/-- A `slotSession`: the handle a client has. -/
structure Handle where
  generation : Nat
  closed : Bool
  deriving DecidableEq, Repr

/-- The backend's answer to `OpenSession`.  A failure may come with a session. -/
inductive Opened
  | opened (sess : Nat)
  | failed (e : Err) (sess : Option Nat)
  deriving DecidableEq, Repr

inductive Op
  | tick
  | ctxErr
  | resolveModelPath (req : OpenSessionRequest)
  | acquire (cancellable : Bool)
  | tryAcquire
  | release
  | isStopped
  | stop
  | enter (sec : Section)
  | snapshotKey (req : OpenSessionRequest)
  | readSnapshot (key : String)
  | snapshotDir (key : String)
  | openSession (req : OpenSessionRequest)
  | closeSession (sess : Nat)
  | snapshot (sess : Nat)
  | restore (sess : Nat)
  | backendEmbed (req : OpenSessionRequest)
  | newHandle (generation : Nat)
  | handle (h : Nat)
  | closeHandle (h : Nat)
  | readBlob
  | call (h sess : Nat) (op : String)
  | started
  | finish
  | receive
  | forward
  | abandon
  | streamEnds (h sess : Nat)

def Op.Res : Op → Type
  | .tick => Int
  | .ctxErr => Option Err
  | .resolveModelPath _ => Except Err OpenSessionRequest
  | .acquire _ => Option Err
  | .tryAcquire | .isStopped => Bool
  | .release | .stop | .abandon | .streamEnds _ _ => Unit
  | .enter sec => sec.Res
  | .snapshotKey _ => String
  | .readSnapshot _ | .snapshotDir _ => Bool
  | .openSession _ => Opened
  | .closeSession _ | .snapshot _ | .restore _ | .backendEmbed _ => Option Err
  | .newHandle _ => Nat
  | .handle _ => Option Handle
  | .closeHandle _ => Option Nat
  | .readBlob => Option Err
  | .call _ _ _ => Unit
  | .started | .finish => Option Err
  | .receive => Option (Option Err)
  | .forward => Option Err

/-- A sequential program of this package. -/
abbrev SlotProg (α : Type) := Prog Op Op.Res α

abbrev issue (o : Op) : SlotProg o.Res := Prog.perform o

/-- A call through a handle that is being served by a session. -/
structure Call where
  handle : Nat
  sess : Nat
  deriving DecidableEq, Repr

structure World (ι : Type) where
  clock : Int
  slot : Slot
  stopped : Bool
  /-- who has the operation lock -/
  lock : Option ι
  handles : List Handle
  /-- the number the backend's next session gets -/
  next : Nat
  openSessions : List Nat
  closed : List Nat
  /-- sessions and the generations they were put into the slot under -/
  installed : List (Nat × Nat)
  running : ι → Option Call
  abandoned : List Call

namespace World

variable {ι : Type} [DecidableEq ι] (w : World ι)

def opened : World ι := { w with next := w.next + 1, openSessions := w.next :: w.openSessions }

def closeSession (sess : Nat) : World ι :=
  { w with openSessions := w.openSessions.erase sess, closed := sess :: w.closed }

def setRunning (i : ι) (c : Option Call) : World ι :=
  { w with running := Function.update w.running i c }

/-- `slotSession.Close`, up to the release. -/
def closeHandle (h : Nat) : World ι :=
  { w with handles := w.handles.modify h fun hd => { hd with closed := true } }

/-- The slot after a section; a session that is put into it is noted with its generation. -/
def entered (sec : Section) (slot : Slot) : World ι :=
  { w with
    slot := slot
    installed :=
      match sec with
      | .install _ sess _ _ _ => (sess, slot.generation) :: w.installed
      | _ => w.installed }

end World

section Semantics

variable {ι : Type} [DecidableEq ι]

/-- What a step does.  `waits` says whether closing a session waits for the streams it serves. -/
def sem (waits : Bool) (idleTTL : Int) : Lib.Semantics ι (World ι) Op Op.Res
  | _, w, .tick, (t : Int) => if w.clock ≤ t then some { w with clock := t } else none
  | _, w, .ctxErr, _ => some w
  | _, w, .resolveModelPath _, _ => some w
  | i, w, .acquire _, none => if w.lock = none then some { w with lock := some i } else none
  | _, w, .acquire cancellable, some _ => if cancellable then some w else none
  | i, w, .tryAcquire, true => if w.lock = none then some { w with lock := some i } else none
  | _, w, .tryAcquire, false => if w.lock = none then none else some w
  | _, w, .release, () => some { w with lock := none }
  | _, w, .isStopped, (b : Bool) => if b = w.stopped then some w else none
  | _, w, .stop, () => some { w with stopped := true }
  | _, w, .enter sec, r => (sec.step w.clock idleTTL w.slot r).map (w.entered sec)
  | _, w, .snapshotKey _, _ => some w
  | _, w, .readSnapshot _, _ => some w
  | _, w, .snapshotDir _, _ => some w
  | _, w, .openSession _, .opened sess => if sess = w.next then some w.opened else none
  | _, w, .openSession _, .failed _ (some sess) => if sess = w.next then some w.opened else none
  | _, w, .openSession _, .failed _ none => some w
  | _, w, .closeSession sess, none =>
    if waits ∧ sess ∈ w.abandoned.map Call.sess then none else some (w.closeSession sess)
  | _, w, .closeSession _, some _ => some w
  | _, w, .snapshot _, _ => some w
  | _, w, .restore _, _ => some w
  | _, w, .backendEmbed _, _ => some w
  | _, w, .newHandle gen, (h : Nat) =>
    if h = w.handles.length then some { w with handles := w.handles ++ [⟨gen, false⟩] } else none
  | _, w, .handle h, (r : Option Handle) => if r = w.handles[h]? then some w else none
  | _, w, .closeHandle h, (r : Option Nat) =>
    if r = ((w.handles[h]?).filter fun hd => !hd.closed).map Handle.generation then
      some (w.closeHandle h)
    else none
  | _, w, .readBlob, _ => some w
  | i, w, .call h sess _, () => some (w.setRunning i (some ⟨h, sess⟩))
  | _, w, .started, _ => some w
  | i, w, .finish, _ => some (w.setRunning i none)
  | _, w, .receive, _ => some w
  | _, w, .forward, _ => some w
  | i, w, .abandon, () =>
    some { w.setRunning i none with abandoned := (w.running i).toList ++ w.abandoned }
  | _, w, .streamEnds h sess, () => some { w with abandoned := w.abandoned.erase ⟨h, sess⟩ }

end Semantics

end Contenox.ModelSlot
