/-
# Which providers a request may reach (`llmresolver`, `runtimestate/adapter.go`)

A request names models as its caller spells them.  The resolver compares NORMALIZED names:
case, separators, an organisation before the first `/`, quantization suffixes and the text
after the last `:` do not count.  So one spelling reaches every provider that normalizes to
the same name, and the policy picks one of them; the others follow as failover alternates.

`mem_filterCandidates` is the statement later files use: a candidate was observed, and it
answers to one of the names of the request.
-/
import Contenox.Gateway.Upstream

namespace Contenox.Gateway

open Lib Lib.GoStrings

/-! ## 1. Names -/

/-- The characters before the last occurrence of a separator; all of them if there is none. -/
def beforeLast (sep : Char) (l : List Char) : List Char :=
  if l.contains sep then ((l.reverse.dropWhile (· ≠ sep)).drop 1).reverse else l

/-- The second of the pieces between slashes, if there is one. -/
def afterOrganisation (s : String) : String := (split s '/').getD 1 s

/-- `NormalizeModelName`. -/
def normalizeModelName (modelName : String) : String :=
  let normalized := toLower modelName
  let normalized := replaceAll normalized " " ""
  let normalized := replaceAll normalized "-" ""
  let normalized := replaceAll normalized "_" ""
  let normalized := replaceAll normalized "." ""
  let normalized := afterOrganisation normalized
  let normalized := replaceAll normalized "awq" ""
  let normalized := replaceAll normalized "gptq" ""
  let normalized := replaceAll normalized "4bit" ""
  let normalized := replaceAll normalized "fp16" ""
  String.ofList (beforeLast ':' normalized.toList)

/-- Does a provider's model answer to a name: as spelled, or normalized. -/
def matchesName (p : Provider) (name : String) : Bool :=
  normalizeModelName p.modelName = normalizeModelName name || p.modelName = name

def providerMatchesAnyName (p : Provider) (names : List String) : Bool :=
  names.any (matchesName p)

/-! ## 2. The observed providers -/

/-- `modelrepo.CanonicalBackendType`. -/
def canonicalBackendType (backendType : String) : String := toLower (trimSpace backendType)

/-- `LocalProviderAdapter`, asked for some backend types; none of them, or only empty ones,
means every type.  `providersOf` stands for the catalog of a backend: the providers it builds
for the models found there. -/
def localProviderAdapter (providersOf : BackendState → List Provider) (state : List BackendState)
    (backendTypes : List String) : List Provider :=
  let usable := state.filter (·.error = "")
  if backendTypes.any (· ≠ "") then
    backendTypes.flatMap fun t =>
      (usable.filter fun s => canonicalBackendType s.backendType = canonicalBackendType t).flatMap
        providersOf
  else usable.flatMap providersOf

/-! ## 3. Candidates -/

/-- `llmresolver.Request`. -/
structure ResolverRequest where
  providerTypes : List String
  modelNames : List String
  contextLength : Int
  requiresVision : Bool
  requiresAudio : Bool

def candidateKey (p : Provider) : String := p.id ++ "\x00" ++ join "\x00" p.backendIDs

def validateProvider (p : Provider) (minContext : Int) (capCheck : Provider → Bool) : Bool :=
  if 0 < minContext ∧ 0 < p.contextLength ∧ p.contextLength < minContext then false
  else capCheck p

/-- The candidates for one preferred name, after those already found. -/
def candidatesNamed (req : ResolverRequest) (capCheck : Provider → Bool) (name : String) :
    List Provider → List Provider → List Provider
  | found, [] => found
  | found, p :: ps =>
    if (found.map candidateKey).contains (candidateKey p) then candidatesNamed req capCheck name found ps
    else if matchesName p name && validateProvider p req.contextLength capCheck then
      candidatesNamed req capCheck name (found ++ [p]) ps
    else candidatesNamed req capCheck name found ps

/-- The candidates, name by name in the order of the request; without names, every provider
that passes. -/
def candidatesFor (req : ResolverRequest) (capCheck : Provider → Bool) (providers : List Provider) :
    List Provider :=
  if req.modelNames = [] then
    providers.filter fun p => validateProvider p req.contextLength capCheck
  else req.modelNames.foldl (fun found name => candidatesNamed req capCheck name found providers) []

/-- `%v` of a list of texts. -/
def listText (l : List String) : String := "[" ++ join " " l ++ "]"

/-- The largest context a capable provider of the named models offers, and its name; the
first one wins a tie. -/
def largestContext (req : ResolverRequest) (capCheck : Provider → Bool) (providers : List Provider) :
    Int × String :=
  (providers.filter fun p =>
      capCheck p && (req.modelNames = [] || providerMatchesAnyName p req.modelNames)).foldl
    (fun best p => if best.1 < p.contextLength then (p.contextLength, p.modelName) else best) (0, "")

/-- The report on a request that nothing matched. -/
def unmatchedText (quote : String → String) (req : ResolverRequest) (providers : List Provider) :
    String :=
  "no models matched requirements:\n" ++
    "- provider: " ++ listText (req.providerTypes.map quote) ++ "\n" ++
    "- model names: " ++ listText req.modelNames ++ "\n" ++
    "- required context length: " ++ toString req.contextLength ++ "\n" ++
    (if req.requiresVision then "- requires vision (request carries images)\n" else "") ++
    (if req.requiresAudio then "- requires audio (request carries audio attachments)\n" else "") ++
    "- available models:\n" ++
    String.join (providers.map fun p =>
      "  • " ++ p.modelName ++ " (ID: " ++ p.id ++ ", context: " ++ toString p.contextLength ++
        ", canchat: " ++ toString p.canChat ++ ", can embed: " ++ toString p.canEmbed ++
        ", canprompt: " ++ toString p.canPrompt ++ ", canvision: " ++ toString p.canVision ++
        ", canaudio: " ++ toString p.canAudio ++ ")\n")

/-- Why there is no candidate. -/
def unmatched (quote : String → String) (req : ResolverRequest) (capCheck : Provider → Bool)
    (providers : List Provider) : Err :=
  let largest := largestContext req capCheck providers
  if 0 < req.contextLength ∧ 0 < largest.1 ∧ largest.1 < req.contextLength then
    ⟨"no model matched the requirements: requested context capacity is " ++
      toString req.contextLength ++ " tokens but the largest matching model " ++ quote largest.2 ++
      " provides only " ++ toString largest.1 ++
      "; choose a larger-context model or lower the requested context window",
      [.noSatisfactoryModel]⟩
  else
    ⟨"no model matched the requirements\n" ++ unmatchedText quote req providers,
      [.noSatisfactoryModel]⟩

def filterCandidates (quote : String → String) (req : ResolverRequest) (providers : List Provider)
    (capCheck : Provider → Bool) : Except Err (List Provider) :=
  if providers = [] then .error ⟨"no models found in runtime state", [.noAvailableModels]⟩
  else
    let candidates := candidatesFor req capCheck providers
    if candidates = [] then .error (unmatched quote req capCheck providers) else .ok candidates

variable {req : ResolverRequest} {providers candidates : List Provider} {capCheck : Provider → Bool}
  {p : Provider} {quote : String → String}

/-- What every match that passes has, the candidates have; and no two have one key. -/
theorem candidatesNamed_keeps {name : String} {found : List Provider} {P : Provider → Prop}
    (hP : ∀ p ∈ providers, matchesName p name = true →
      validateProvider p req.contextLength capCheck = true → P p)
    (h : (found.map candidateKey).Nodup ∧ ∀ p ∈ found, P p) :
    ((candidatesNamed req capCheck name found providers).map candidateKey).Nodup ∧
      ∀ p ∈ candidatesNamed req capCheck name found providers, P p := by
  induction providers generalizing found with
  | nil => exact h
  | cons q qs ih =>
    have hrest := List.forall_mem_cons.mp hP
    simp only [candidatesNamed]
    split
    · exact ih hrest.2 h
    next hnew =>
    split
    next hq =>
      rw [Bool.and_eq_true] at hq
      refine ih hrest.2 ⟨?_, List.forall_mem_append.mpr ⟨h.2, by simpa using hrest.1 hq.1 hq.2⟩⟩
      rw [List.map_append, List.map_singleton, List.nodup_append]
      simpa [h.1] using hnew
    next => exact ih hrest.2 h

theorem candidatesFor_keeps {P : Provider → Prop} (hne : req.modelNames ≠ [])
    (hP : ∀ name ∈ req.modelNames, ∀ p ∈ providers, matchesName p name = true →
      validateProvider p req.contextLength capCheck = true → P p) :
    ((candidatesFor req capCheck providers).map candidateKey).Nodup ∧
      ∀ p ∈ candidatesFor req capCheck providers, P p := by
  unfold candidatesFor
  rw [if_neg hne]
  refine List.foldlRecOn (motive := fun found : List Provider =>
    (found.map candidateKey).Nodup ∧ ∀ p ∈ found, P p) _ _ (by simp) ?_
  intro found ih name hname
  exact candidatesNamed_keeps (hP name hname) ih

theorem candidatesFor_of_ok (h : filterCandidates quote req providers capCheck = .ok candidates) :
    candidatesFor req capCheck providers = candidates := by
  unfold filterCandidates at h
  split at h
  · cases h
  dsimp only at h
  split at h
  · cases h
  exact Except.ok.inj h

/-- **A candidate was observed, and answers to a name of the request.** -/
theorem mem_filterCandidates (h : filterCandidates quote req providers capCheck = .ok candidates)
    (hp : p ∈ candidates) :
    p ∈ providers ∧ (req.modelNames ≠ [] → providerMatchesAnyName p req.modelNames = true) := by
  obtain rfl := candidatesFor_of_ok h
  by_cases hnil : req.modelNames = []
  · rw [candidatesFor, if_pos hnil] at hp
    exact ⟨(List.mem_filter.mp hp).1, fun hne => absurd hnil hne⟩
  refine And.imp_right (fun hm _ => hm) ((candidatesFor_keeps (P := fun p => p ∈ providers ∧
    providerMatchesAnyName p req.modelNames = true) hnil ?_).2 p hp)
  intro name hname p hp hm _
  exact ⟨hp, List.any_eq_true.mpr ⟨name, hname, hm⟩⟩

/-! ## 4. Attachments -/

/-- The first name of the request that some capable provider answers to decides: if none of
its providers takes the attachment, the request is refused. -/
def refusePinned (providers : List Provider) (base can : Provider → Bool)
    (refusal : String → Err) : List String → Option Err
  | [] => none
  | name :: names =>
    let matched := providers.filter fun p => providerMatchesAnyName p [name] && base p
    if matched.any can then none
    else if matched ≠ [] then some (refusal name)
    else refusePinned providers base can refusal names

section Attachments

variable (quote : String → String) (req : ResolverRequest) (providers : List Provider)
  (base : Provider → Bool)

def refusePinnedNonVision : Option Err :=
  if req.requiresVision then
    refusePinned providers base (·.canVision)
      (fun name => ⟨"explicitly requested model lacks vision capability: requested model " ++
        quote name ++ " accepts text only and the request carries images; name a vision-capable " ++
        "model, set a vision-capable default, or drop the model pin to let routing pick one",
        [.pinnedModelLacksVision]⟩) req.modelNames
  else none

def refusePinnedNonAudio : Option Err :=
  if req.requiresAudio then
    refusePinned providers base (·.canAudio)
      (fun name => ⟨"explicitly requested model lacks audio capability: requested model " ++
        quote name ++ " does not accept audio and the request carries audio attachments; name an " ++
        "audio-capable model, set an audio-capable default (default-audio-model), or drop the " ++
        "model pin to let routing pick one", [.pinnedModelLacksAudio]⟩) req.modelNames
  else none

def visionCapCheck : Provider → Bool :=
  if req.requiresVision then fun p => base p && p.canVision else base

def audioCapCheck : Provider → Bool :=
  if req.requiresAudio then fun p => base p && p.canAudio else base

/-- The error of a request that models match but for its attachment. -/
def classifyFailure (err : Err) (lacks hint : String) (kind : Sentinel) : Err :=
  match filterCandidates quote req providers base with
  | .error _ => err
  | .ok candidates =>
    ⟨"no model matched the requirements: no available model supports " ++ lacks ++
      ": matching models " ++ listText (candidates.map (·.modelName)) ++ hint,
      [kind, .noSatisfactoryModel]⟩

def classifyVisionFailure (err : Err) : Err :=
  if req.requiresVision ∧ err.is .noSatisfactoryModel then
    classifyFailure quote req providers base err "image input (vision)"
      " accept text only; use a vision-capable model for requests with images" .noVisionCapableModel
  else err

def classifyAudioFailure (err : Err) : Err :=
  if req.requiresAudio ∧ err.is .noSatisfactoryModel ∧ !err.is .noVisionCapableModel then
    classifyFailure quote req providers base err "audio input"
      " do not accept audio; use an audio-capable model for requests with audio attachments"
      .noAudioCapableModel
  else err

/-- `chatCandidates` and `streamCandidates`, which differ in the capability they ask for. -/
def messageCandidates : Except Err (List Provider) :=
  match refusePinnedNonVision quote req providers base with
  | some err => .error err
  | none =>
    match refusePinnedNonAudio quote req providers base with
    | some err => .error err
    | none =>
      match filterCandidates quote req providers (audioCapCheck req (visionCapCheck req base)) with
      | .ok candidates => .ok candidates
      | .error err =>
        .error (classifyAudioFailure quote req providers base
          (classifyVisionFailure quote req providers base err))

end Attachments

theorem mem_messageCandidates {base : Provider → Bool}
    (h : messageCandidates quote req providers base = .ok candidates) (hp : p ∈ candidates) :
    p ∈ providers ∧ (req.modelNames ≠ [] → providerMatchesAnyName p req.modelNames = true) := by
  unfold messageCandidates at h
  split at h
  · cases h
  split at h
  · cases h
  split at h
  · next hf =>
    cases h
    exact mem_filterCandidates hf hp
  · cases h

/-! ## 5. The policy's pick and the failover order -/

/-- `Selection`: a provider and one of its backends. -/
structure Selection where
  provider : Provider
  backend : String
  deriving DecidableEq, Repr

/-- The error of a policy that has nothing to pick from. -/
def nothingToPick : Err := ⟨"no model matched the requirements", [.noSatisfactoryModel]⟩

def selectRandomBackend (p : Provider) : Turn (Except Err Selection) :=
  if p.backendIDs = [] then pure (.error nothingToPick)
  else do
    let i ← ask (.intn p.backendIDs.length)
    pure (.ok ⟨p, p.backendIDs.get i⟩)

/-- `Randomly`. -/
def randomly (candidates : List Provider) : Turn (Except Err Selection) :=
  if candidates = [] then pure (.error nothingToPick)
  else do
    let i ← ask (.intn candidates.length)
    selectRandomBackend (candidates.get i)

/-- Every candidate with each of its backends, in order. -/
def pairs (candidates : List Provider) : List Selection :=
  candidates.flatMap fun p => p.backendIDs.map (Selection.mk p)

/-- The pair of the highest score, the first one in a tie. -/
def best (score : Selection → Nat) : Option Selection → List Selection → Option Selection
  | found, [] => found
  | none, x :: xs => best score (some x) xs
  | some y, x :: xs => best score (some (if score y < score x then x else y)) xs

/-- `StickyOrRandom`, applied; `score` stands for `rendezvousScore` of the session key, the
provider's id and the backend. -/
def stickyOrRandom (score : String → String → String → Nat) (sessionKey : String)
    (candidates : List Provider) : Turn (Except Err Selection) :=
  if sessionKey = "" then randomly candidates
  else
    match best (fun x => score sessionKey x.provider.id x.backend) none (pairs candidates) with
    | some x => pure (.ok x)
    | none => pure (.error nothingToPick)

/-- `orderSelections`: the pick, then every other pair; the pick is skipped once. -/
def orderSelections (candidates : List Provider) (pick : Selection) : List Selection :=
  pick :: (pairs candidates).eraseP fun x =>
    x.backend = pick.backend && x.provider.id = pick.provider.id

theorem mem_pairs {x : Selection} (h : x ∈ pairs candidates) :
    x.provider ∈ candidates ∧ x.backend ∈ x.provider.backendIDs := by
  obtain ⟨p, hp, hx⟩ := List.mem_flatMap.mp h
  obtain ⟨b, hb, rfl⟩ := List.mem_map.mp hx
  exact ⟨hp, hb⟩

theorem mem_best {score : Selection → Nat} {found : Option Selection} {l : List Selection}
    {x : Selection} (h : best score found l = some x) : found = some x ∨ x ∈ l := by
  induction l generalizing found with
  | nil => exact .inl h
  | cons y l ih =>
    cases found with
    | none =>
      rcases ih h with h | h
      · exact .inr (List.mem_cons.mpr (.inl (Option.some.inj h).symm))
      · exact .inr (List.mem_cons_of_mem y h)
    | some z =>
      rcases ih h with h | h
      · by_cases hs : score z < score y
        · rw [if_pos hs] at h
          exact .inr (List.mem_cons.mpr (.inl (Option.some.inj h).symm))
        · rw [if_neg hs] at h
          exact .inl h
      · exact .inr (List.mem_cons_of_mem y h)

theorem mem_orderSelections {pick x : Selection}
    (h : x ∈ orderSelections candidates pick) : x = pick ∨ x ∈ pairs candidates := by
  rcases List.mem_cons.mp h with h | h
  · exact .inl h
  · exact .inr (List.mem_of_mem_eraseP h)

end Contenox.Gateway
