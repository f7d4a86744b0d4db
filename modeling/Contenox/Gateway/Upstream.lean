/-
# What a gateway process talks to

A turn through the gateway is a sequential program.  It reads the observed backends, asks the
health view, opens connections, hands prompts to providers and writes frames to its client;
everything else it does is computation.  This file has the data that travels and the list
`Op` of those contacts.  The router (`Resolver.lean`, `Manager.lean`) is a `Lib.Prog` program
over it, so a statement about every answer the outside may give is a statement about the tree.

Two things pass through `Op` although they are calls inside the process: the router asks the
gateway's breaker whether a backend may be asked (`health`) and tells the gateway's tracker
that a backend was excluded (`excluded`).  They are the only ways the router acts on the
gateway's state.
-/
import Contenox.Lib.GoStrings
import Contenox.Lib.Threads

namespace Contenox.Gateway

/-! ## 1. Errors -/

/-- The errors of the model layer that a caller can recognise with `errors.Is`. -/
inductive Sentinel
  | noAvailableModels
  | noSatisfactoryModel
  | noVisionCapableModel
  | noAudioCapableModel
  | pinnedModelLacksVision
  | pinnedModelLacksAudio
  | invalidRequest
  | resolutionOutOfBounds
  | modelNotFoundOnBackend
  | modelAccessDenied
  | rateLimited
  | other
  deriving DecidableEq, Repr

/-- An error: its text, and the sentinels it wraps. -/
structure Err where
  text : String
  wraps : List Sentinel := []
  deriving DecidableEq, Repr

/-- `errors.Is`. -/
def Err.is (e : Err) (s : Sentinel) : Bool := e.wraps.contains s

/-- `fmt.Errorf("<lead>%w", e)`. -/
def Err.after (lead : String) (e : Err) : Err := { e with text := lead ++ e.text }

/-- `modelrepo.IsBackendTerminal`. -/
def isBackendTerminal (e : Err) : Bool := e.is .modelNotFoundOnBackend || e.is .modelAccessDenied

/-! ## 2. Backends and providers -/

/-- A provider of one model, as the catalog of its backend builds it. -/
structure Provider where
  id : String
  modelName : String
  kind : String
  backendIDs : List String
  contextLength : Int
  canChat : Bool
  canEmbed : Bool
  canStream : Bool
  canPrompt : Bool
  canVision : Bool
  canAudio : Bool
  deriving DecidableEq, Repr

/-- `runtimestate.BackendRuntimeState`: one backend as last observed, with what is declared
of it.  `pulled` are the models found there, by `Model` and `Name`. -/
structure BackendState where
  id : String
  name : String
  backendID : String
  backendName : String
  backendType : String
  baseURL : String
  error : String
  pulled : List (String × String)
  deriving DecidableEq, Repr

/-! ## 3. What a turn carries and what it reports -/

/-- The four calls of the model layer. -/
inductive Call
  | chat
  | prompt
  | stream
  | embed
  deriving DecidableEq, Repr

/-- The word the source has for a call in its messages. -/
def Call.text : Call → String
  | .chat => "chat"
  | .prompt => "prompt"
  | .stream => "stream"
  | .embed => "embed"

/-- The messages of a turn, by what routing and metering read of them. -/
structure Messages where
  count : Nat
  images : Nat
  audioParts : Nat
  audioBytes : Nat
  deriving DecidableEq, Repr

/-- `modelrepo.TokenUsage`. -/
structure TokenUsage where
  prompt : Int64 := 0
  completion : Int64 := 0
  thinking : Int64 := 0
  total : Int64 := 0
  cacheRead : Int64 := 0
  cacheWrite : Int64 := 0
  deriving DecidableEq, Repr

/-- `llmrepo.Meta`. -/
structure Meta where
  modelName : String := ""
  providerType : String := ""
  backendID : String := ""
  usage : Option TokenUsage := none
  deriving DecidableEq, Repr

/-- What a provider answers to a call that went well, as far as it is accounted. -/
structure Reply where
  usage : Option TokenUsage
  deriving DecidableEq, Repr

/-- The last parcel of a stream may carry the usage of the whole. -/
structure Terminal where
  usage : Option TokenUsage
  deriving DecidableEq, Repr

/-- `modelrepo.StreamParcel`, without the text it carries. -/
structure Parcel where
  usage : Option TokenUsage := none
  terminal : Option Terminal := none
  error : Option Err := none
  deriving DecidableEq, Repr

/-- What is read from a stream: its end, a parcel, or the caller's cancellation. -/
inductive Received
  | closed
  | parcel (p : Parcel)
  | cancelled
  deriving DecidableEq, Repr

/-- `gateway.turnUsage`: what one turn is charged for. -/
structure TurnUsage where
  backend : String
  model : String
  prompt : Int64
  completion : Int64
  thinking : Int64
  cacheRead : Int64
  cacheWrite : Int64
  images : Int64
  audioBytes : Int64
  deriving DecidableEq, Repr

/-- `gateway.backendRefusal`: one backend excluded from a turn. -/
structure Refusal where
  backend : String
  terminal : Bool
  rateLimited : Bool
  deriving DecidableEq, Repr

/-! ## 4. The contacts -/

/-- Everything a turn asks of the outside. -/
inductive Op
  /-- `runtime.Get`: the backends as observed now -/
  | observed
  /-- `reconcileForResolution`, for an error that calls for it: is it worth another try -/
  | reconcile
  /-- `rand.Intn` -/
  | intn (n : Nat)
  /-- `req.BackendHealth(id)` -/
  | health (id : String)
  /-- open a connection to a provider -/
  | connect (call : Call) (p : Provider) (backend : String)
  /-- hand the prompt or the messages to a provider -/
  | send (call : Call) (p : Provider) (backend : String)
  /-- the next parcel of the open stream -/
  | receive
  /-- `reportBackendRefusal` -/
  | excluded (refusal : Refusal)
  /-- `AuthorizeTurn`, for a model: the error it refuses with -/
  | authorizeTurn (model : String)
  /-- `quarantined`, for a model -/
  | quarantined (model : String)
  /-- write a frame or the answer to the client -/
  | reply
  /-- is the turn's context done -/
  | done
  /-- count the tokens of a text under a model -/
  | countTokens (model : String)
  /-- `recordBackendSuccess`, not empty -/
  | success (id : String)
  /-- `recordBackendHealth`, not empty -/
  | failure (refusal : Refusal)
  /-- take what the turn's tracker holds: `healthTracker.record` reads and clears it -/
  | lastExcluded
  /-- `chargeTurn` -/
  | charge (turn : TurnUsage)
  deriving DecidableEq, Repr

/-- What the outside answers. -/
abbrev Op.Res : Op → Type
  | .observed => List BackendState
  | .reconcile => Bool
  | .intn n => Fin n
  | .health _ => Bool
  | .connect _ _ _ => Option Err
  | .send _ _ _ => Except Err Reply
  | .receive => Received
  | .excluded _ => Unit
  | .authorizeTurn _ => Option Err
  | .quarantined _ => Bool
  | .reply => Bool
  | .done => Bool
  | .countTokens _ => Option Int64
  | .success _ => Unit
  | .failure _ => Unit
  | .lastExcluded => Option Refusal
  | .charge _ => Unit

/-- A turn, or a part of one. -/
abbrev Turn (α : Type) : Type := Lib.Prog Op Op.Res α

/-- Ask the outside. -/
abbrev ask (o : Op) : Turn o.Res := Lib.Prog.perform o

end Contenox.Gateway
