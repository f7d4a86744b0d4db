/-
# The model layer under the gateway (`llmrepo`)

`Chat`, `PromptExecute`, `Stream` and `Embed` of the model manager: resolve the request to an
ordered list of selections, then walk the list.  A selection is passed over when the caller's
health view or the mission's envelope forbids it; a backend whose refusal is terminal for it
alone is excluded and the next one tried; any other error ends the call.

The walks of the three calls that take a list are written out one by one, because they differ:
only `runChatSelections` asks the health view, and only `runStreamSelections` looks at the
first parcel before it commits to a backend.
-/
import Contenox.Gateway.Resolver
import Contenox.Lib.Dialogue
import Mathlib.Data.List.Sort

namespace Contenox.Gateway

open Lib Lib.GoStrings

/-! ## 1. Requests and settings -/

/-- `llmrepo.Request`; `health` says whether it carries a health view. -/
structure Request where
  providerTypes : List String := []
  modelNames : List String
  contextLength : Int := 0
  sessionKey : String := ""
  health : Bool := false

/-- `llmrepo.EmbedRequest`. -/
structure EmbedRequest where
  modelName : String
  providerType : String := ""
  health : Bool := false

/-- `ResolutionBounds`: the envelope's allowlists; an empty one bounds nothing. -/
structure ResolutionBounds where
  models : List String := []
  backends : List String := []

/-- `ResolutionBounds.IsZero`. -/
def ResolutionBounds.isZero (b : ResolutionBounds) : Bool := b.models = [] && b.backends = []

/-- What the model layer reads of a context. -/
structure Ctx where
  bounds : ResolutionBounds := {}
  sessionKey : String := ""

structure ModelConfig where
  name : String := ""
  provider : String := ""

/-- `modelManager`: the defaults it is configured with, and what it calls that is not
modelled: the catalogs' providers, `%q`, and the hash of the sticky policy. -/
structure Manager where
  providersOf : BackendState → List Provider
  quote : String → String
  score : String → String → String → Nat
  defaultPromptModel : ModelConfig := {}
  defaultEmbeddingModel : ModelConfig := {}
  defaultChatModel : ModelConfig := {}
  defaultAudioModel : ModelConfig := {}

/-! ## 2. The envelope (`bounds.go`) -/

def allowlistContains (allowed : List String) (value : String) : Bool :=
  let v := toLower (trimSpace value)
  v ≠ "" && allowed.any fun a => toLower (trimSpace a) = v

/-- The operator-facing name of a backend in a state; empty if it is not there. -/
def nameIn (state : List BackendState) (backendID : String) : String :=
  if backendID = "" then ""
  else
    match state.find? fun s => s.backendID = backendID || s.id = backendID with
    | some s => if s.backendName ≠ "" then s.backendName else s.name
    | none => ""

def backendName (backendID : String) : Turn String := do
  let state ← ask .observed
  pure (nameIn state backendID)

def backendAllowed (allowed : List String) (backendID : String) : Turn Bool :=
  if allowlistContains allowed backendID then pure true
  else do
    let name ← backendName backendID
    pure (name ≠ "" && allowlistContains allowed name)

def backendLabel (backendID : String) : Turn String := do
  let name ← backendName backendID
  pure (if name ≠ "" then name ++ " (" ++ backendID ++ ")" else backendID)

def quotedList (quote : String → String) (entries : List String) : String :=
  let cleaned := ((entries.map trimSpace).filter (· ≠ "")).map quote
  if cleaned = [] then "(nothing)" else join ", " (cleaned.insertionSort (· ≤ ·))

def outOfBoundsError (quote : String → String) (call : Call) (bound picked : String)
    (allowed : List String) : Err :=
  ⟨"compute bound refused: " ++ bound ++ " — this mission's envelope permits only " ++
    quotedList quote allowed ++ "; " ++ call.text ++ " resolution picked " ++
    quote (if picked = "" then "(unidentified)" else picked) ++
    ". Nothing was sent: resolution outside the mission envelope", [.resolutionOutOfBounds]⟩

variable (m : Manager) (ctx : Ctx)

def enforceResolutionBounds (call : Call) (x : Selection) : Turn (Option Err) :=
  if ctx.bounds.isZero then pure none
  else if ctx.bounds.models ≠ [] ∧ allowlistContains ctx.bounds.models x.provider.modelName = false then
    pure (some (outOfBoundsError m.quote call "modelAllowlist" x.provider.modelName ctx.bounds.models))
  else if ctx.bounds.backends ≠ [] then do
    if ← backendAllowed ctx.bounds.backends x.backend then pure none
    else do
      let label ← backendLabel x.backend
      pure (some (outOfBoundsError m.quote call "backendAllowlist" label ctx.bounds.backends))
  else pure none

/-! ## 3. The health view -/

/-- The id of the backend behind an endpoint in a state; the endpoint if it is not there. -/
def idIn (state : List BackendState) (endpoint : String) : String :=
  match state.find? fun s => s.baseURL = endpoint || s.id = endpoint || s.backendID = endpoint with
  | some s => if s.backendID ≠ "" then s.backendID else s.id
  | none => endpoint

/-- Ask the health view about the backend behind an endpoint. -/
def healthy (endpoint : String) : Turn Bool := do
  let state ← ask .observed
  ask (.health (idIn state endpoint))

def backendAllowedByHealth (req : Request) (endpoint : String) : Turn Bool :=
  if req.health = false ∨ endpoint = "" then pure true else healthy endpoint

/-- The candidates the health view lets through, by their first endpoint. -/
def healthyAmong : List Provider → Turn (List Provider)
  | [] => pure []
  | p :: ps => do
    let up ← healthy (p.backendIDs.headD "")
    let rest ← healthyAmong ps
    pure (if up then p :: rest else rest)

/-- `healthyResolver`, applied. -/
def healthyResolver (health : Bool) (candidates : List Provider) : Turn (Except Err Selection) :=
  if health then do
    let up ← healthyAmong candidates
    if up = [] then
      pure (.error ⟨"embedding: no candidate backend is in service: no model matched the requirements",
        [.noSatisfactoryModel]⟩)
    else randomly up
  else randomly candidates

/-! ## 4. The walks (`failover.go`) -/

/-- `backendRefusal` of the model layer: who refused, and why. -/
structure RefusedBy where
  backend : String
  model : String
  err : Err

/-- `exhaustedError`; `errors.Join` puts each on its own line. -/
def exhaustedError (call : Call) (refusals : List RefusedBy) : Err :=
  ⟨call.text ++ " refused by every capable backend: " ++
      join "\n" (refusals.map fun r =>
        "backend " ++ r.backend ++ " (model " ++ r.model ++ "): " ++ r.err.text),
    refusals.flatMap (·.err.wraps)⟩

/-- The refusal of a selection. -/
def Selection.refusedBy (x : Selection) (err : Err) : RefusedBy := ⟨x.backend, x.provider.modelName, err⟩

/-- `skipOrFail`: before any backend refused, the error ends the call. -/
def skipOrFail (refusals : List RefusedBy) (x : Selection) (err : Err) : Except Err (List RefusedBy) :=
  if refusals = [] then .error err else .ok (refusals ++ [x.refusedBy err])

/-- `reportBackendRefusal`, as far as the gateway's tracker reads it. -/
def reportBackendRefusal (x : Selection) (err : Err) : Turn Unit :=
  ask (.excluded ⟨x.backend, isBackendTerminal err, err.is .rateLimited⟩)

/-- The `Meta` of a call that a selection served. -/
def Selection.served (x : Selection) (usage : Option TokenUsage) : Meta :=
  ⟨x.provider.modelName, x.provider.kind, x.backend, usage⟩

/-- What comes before a selection is asked: the envelope, then the connection. -/
inductive Opened
  /-- the call ends here -/
  | failed (err : Err)
  /-- the walk goes on -/
  | skipped (refusals : List RefusedBy)
  /-- the selection may be asked -/
  | ready

/-- A selection that cannot be asked is skipped, or ends the call with its error in these
words. -/
def passOver (words : Err → Err) (refusals : List RefusedBy) (x : Selection) (err : Err) : Opened :=
  match skipOrFail refusals x err with
  | .error e => .failed (words e)
  | .ok refusals => .skipped refusals

theorem passOver_ne_ready (words : Err → Err) (refusals : List RefusedBy) (x : Selection)
    (err : Err) : passOver words refusals x err ≠ .ready := by
  unfold passOver
  cases skipOrFail refusals x err with
  | error _ | ok _ => exact Opened.noConfusion

/-- The envelope check and the connection, the same in all three walks but for the words
before a connection error. -/
def openSelection (call : Call) (lead : String)
    (refusals : List RefusedBy) (x : Selection) : Turn Opened := do
  match ← enforceResolutionBounds m ctx call x with
  | some err => pure (passOver id refusals x err)
  | none =>
    match ← ask (.connect call x.provider x.backend) with
    | some err => pure (passOver (Err.after lead) refusals x err)
    | none => pure .ready

/-- What became of a prompt: the walk ends, or goes on past a backend that refused it for good. -/
inductive Sent (β : Type)
  | done (r : Except Err β)
  | refused (err : Err)

/-- The prompt is handed over. -/
def Selection.send {β : Type} (x : Selection) (call : Call) (failure : String)
    (take : Selection → Reply → Turn (Sent β)) : Turn (Sent β) := do
  match ← ask (.send call x.provider x.backend) with
  | .ok reply => take x reply
  | .error err =>
    pure (if isBackendTerminal err then .refused err else .done (.error (err.after failure)))

/-- The three walks, after some refusals.  `gate` is asked before a selection is opened, and
`take` gets the answer to its prompt. -/
def runSelections {β : Type} (m : Manager) (ctx : Ctx) (call : Call) (lead failure : String)
    (gate : Selection → Turn Bool) (take : Selection → Reply → Turn (Sent β)) :
    List RefusedBy → List Selection → Turn (Except Err β)
  | refusals, [] => pure (.error ((exhaustedError call refusals).after failure))
  | refusals, x :: rest => do
    if ← gate x then
      match ← openSelection m ctx call lead refusals x with
      | .failed err => pure (.error err)
      | .skipped refusals => runSelections m ctx call lead failure gate take refusals rest
      | .ready =>
        match ← x.send call failure take with
        | .done r => pure r
        | .refused err => do
          reportBackendRefusal x err
          runSelections m ctx call lead failure gate take (refusals ++ [x.refusedBy err]) rest
    else runSelections m ctx call lead failure gate take refusals rest

/-- `runChatSelections`, which alone asks the health view. -/
def runChatSelections (req : Request) :
    List RefusedBy → List Selection → Turn (Except Err (Reply × Meta)) :=
  runSelections m ctx .chat "chat: client resolution failed: " "chat execution failed: "
    (fun x => backendAllowedByHealth req x.backend)
    fun x reply => pure (.done (.ok (reply, x.served none)))

def runPromptSelections : List RefusedBy → List Selection → Turn (Except Err Meta) :=
  runSelections m ctx .prompt "prompt execute: client resolution failed: "
    "prompt execution failed: " (fun _ => pure true)
    fun x reply => pure (.done (.ok (x.served reply.usage)))

/-- A stream as `relayStream` hands it on: the parcel already looked at, and whether the
stream is over. -/
structure Stream where
  first : Option Parcel
  ended : Bool

def runStreamSelections : List RefusedBy → List Selection → Turn (Except Err (Stream × Meta)) :=
  runSelections m ctx .stream "stream: client resolution failed: "
    "stream initialization failed: " (fun _ => pure true)
    fun x _ => do
      match ← ask .receive with
      | .cancelled => pure (.done (.error ⟨"context canceled", []⟩))
      | .closed => pure (.done (.ok (⟨none, true⟩, x.served none)))
      | .parcel p =>
        -- the first parcel is the only one a failover may still follow
        match p.error.filter isBackendTerminal with
        | some err => pure (.refused err)
        | none => pure (.done (.ok (⟨some p, false⟩, x.served none)))

/-! ## 5. The four calls (`llmrepo.go`) -/

/-- `GetRuntime`, asked for some backend types. -/
def getRuntime (types : List String) : Turn (List Provider) := do
  let state ← ask .observed
  pure (localProviderAdapter m.providersOf state types)

def reconcileForResolution (err : Err) : Turn Bool :=
  if err.is .noAvailableModels || err.is .noSatisfactoryModel then ask .reconcile else pure false

/-- Resolve against the observed providers, and once more if a reconcile promises a change. -/
def resolve {α : Type} (types : List String)
    (select : List Provider → Turn (Except Err α)) : Turn (Except Err α) := do
  let providers ← getRuntime m types
  match ← select providers with
  | .ok a => pure (.ok a)
  | .error err =>
    if ← reconcileForResolution err then do
      let providers ← getRuntime m types
      select providers
    else pure (.error err)

/-- The policy's pick among the candidates, and the rest behind it. -/
def ordered (candidates : Except Err (List Provider))
    (policy : List Provider → Turn (Except Err Selection)) : Turn (Except Err (List Selection)) :=
  match candidates with
  | .error err => pure (.error err)
  | .ok candidates => do
    match ← policy candidates with
    | .error err => pure (.error err)
    | .ok pick => pure (.ok (orderSelections candidates pick))

def validateRequest (req : Request) : Option Err :=
  if req.contextLength < 0 then
    some ⟨"invalid model request: context length must be non-negative", [.invalidRequest]⟩
  else none

def effectiveSessionKey (ctx : Ctx) (req : Request) : String :=
  if req.sessionKey ≠ "" then req.sessionKey else ctx.sessionKey

def applyAudioDefault (messages : Messages) (req : Request) : Request :=
  if messages.audioParts ≠ 0 ∧ req.modelNames = [] ∧ m.defaultAudioModel.name ≠ "" then
    { req with
      modelNames := [m.defaultAudioModel.name]
      providerTypes :=
        if req.providerTypes = [] ∧ m.defaultAudioModel.provider ≠ "" then
          [m.defaultAudioModel.provider]
        else req.providerTypes }
  else req

/-- The defaults of a call for what the request leaves open; `always` puts them in even when
they are empty. -/
def applyDefault (always : Bool) (config : ModelConfig) (req : Request) : Request :=
  { req with
    modelNames := if req.modelNames = [] ∧ (always ∨ config.name ≠ "") then [config.name] else req.modelNames
    providerTypes :=
      if req.providerTypes = [] ∧ (always ∨ config.provider ≠ "") then [config.provider]
      else req.providerTypes }

def convertToResolverRequest (req : Request) (images audioParts : Nat) : ResolverRequest :=
  ⟨req.providerTypes, req.modelNames, req.contextLength, images ≠ 0, audioParts ≠ 0⟩

/-- The error for a call without messages. -/
def noMessages : Err := ⟨"invalid model request: messages cannot be empty", [.invalidRequest]⟩

/-- What `Chat`, `PromptExecute` and `Stream` do with a request that has its defaults: the
selections in failover order, and the call. -/
def resolveAndRun (req : Request) (op : String)
    (candidates : List Provider → Except Err (List Provider))
    (run : List Selection → Turn (Except Err β)) : Turn (Except Err β) := do
  match ← resolve m req.providerTypes fun providers =>
      ordered (candidates providers) (stickyOrRandom m.score (effectiveSessionKey ctx req)) with
  | .error err => pure (.error (err.after (op ++ ": client resolution failed: ")))
  | .ok selections => run selections

/-- `Chat`. -/
def Manager.chat (req : Request) (messages : Messages) : Turn (Except Err (Reply × Meta)) :=
  match validateRequest req with
  | some err => pure (.error (err.after "invalid request: "))
  | none =>
    if messages.count = 0 then pure (.error noMessages)
    else
      let req := applyDefault true m.defaultChatModel (applyAudioDefault m messages req)
      let resolverReq := convertToResolverRequest req messages.images messages.audioParts
      resolveAndRun m ctx req "chat"
        (fun providers => messageCandidates m.quote resolverReq providers (·.canChat))
        (runChatSelections m ctx req [])

/-- `PromptExecute`. -/
def Manager.promptExecute (req : Request) : Turn (Except Err Meta) :=
  match validateRequest req with
  | some err => pure (.error (err.after "invalid request: "))
  | none =>
    let req := applyDefault true m.defaultPromptModel req
    resolveAndRun m ctx req "prompt execute"
      (fun providers =>
        filterCandidates m.quote (convertToResolverRequest req 0 0) providers (·.canPrompt))
      (runPromptSelections m ctx [])

/-- `Stream`. -/
def Manager.stream (req : Request) (messages : Messages) : Turn (Except Err (Stream × Meta)) :=
  if messages.count = 0 then pure (.error noMessages)
  else
    match validateRequest req with
    | some err => pure (.error (err.after "invalid request: "))
    | none =>
      let req := applyDefault false m.defaultChatModel (applyAudioDefault m messages req)
      let resolverReq := convertToResolverRequest req messages.images messages.audioParts
      resolveAndRun m ctx req "stream"
        (fun providers => messageCandidates m.quote resolverReq providers (·.canStream))
        (runStreamSelections m ctx [])

/-- `llmresolver.Embed`: candidates, pick and connection. -/
def resolveEmbed (req : EmbedRequest) (providers : List Provider) : Turn (Except Err Selection) :=
  if req.modelName = "" then pure (.error ⟨"model name is required", []⟩)
  else
    match filterCandidates m.quote ⟨[req.providerType], [req.modelName], 0, false, false⟩ providers
        (·.canEmbed) with
    | .error err => pure (.error (err.after "failed to filter candidates: "))
    | .ok candidates => do
      match ← healthyResolver req.health candidates with
      | .error err => pure (.error (err.after "failed to apply resolver: "))
      | .ok x =>
        match ← ask (.connect .embed x.provider x.backend) with
        | some err => pure (.error err)
        | none => pure (.ok x)

/-- The defaults of an embedding. -/
def applyEmbedDefault (req : EmbedRequest) : EmbedRequest :=
  { req with
    modelName := if req.modelName = "" then m.defaultEmbeddingModel.name else req.modelName
    providerType :=
      if req.providerType = "" then m.defaultEmbeddingModel.provider else req.providerType }

/-- `Embed`, of a prompt that may be empty.  An error comes with the `Meta` known so far. -/
def Manager.embed (req : EmbedRequest) (emptyPrompt : Bool) : Turn (Except (Err × Meta) Meta) :=
  if emptyPrompt then
    pure (.error (⟨"invalid model request: prompt cannot be empty", [.invalidRequest]⟩, {}))
  else do
    let req := applyEmbedDefault m req
    match ← resolve m [req.providerType] (resolveEmbed m req) with
    | .error err => pure (.error (err.after "embed: client resolution failed: ", {}))
    | .ok x =>
      match ← enforceResolutionBounds m ctx .embed x with
      | some err => pure (.error (err, x.served none))
      | none =>
        match ← ask (.send .embed x.provider x.backend) with
        | .error err => pure (.error (err.after "embedding generation failed: ", x.served none))
        | .ok _ => pure (.ok (x.served none))

end Contenox.Gateway
