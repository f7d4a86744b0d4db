/-
# The gate in front of the tools, in a resumed run

Every call of a resumed run goes through `HITLWrapper.Exec`: a precheck of the tool, the policy,
and, for a call the policy wants approved, the verdict the resume carries for it.  An approved
call runs once: its outcome is put into the store of this process first and into the checkpoint's
row after, and a call whose outcome the store holds is answered from there.

The world of a gated run is the world of the tools with what the gate keeps beside it, and a LOG
of the calls, one entry for each, which the source does not have.  Section 4 says what a call can
do to it, section 5 what a task can, whatever its handler: a task is a sequence of such calls, and
a call whose outcome could not be recorded is its last.
-/
import Contenox.Engine.Scope
import Contenox.Policy.Document

namespace Contenox.Engine

open Lib

variable {σ α : Type}

/-! ## 1. The record of an outcome -/

/-- What `MarshalGateResult` writes: the type by its name, the value as JSON. -/
structure GateRecord where
  type : DataType
  value : String
  deriving DecidableEq, Repr

def marshalGateResult (codec : Codec) (r : Typed) : Except String GateRecord :=
  match codec.marshal r.1 with
  | .ok text => .ok ⟨r.2, text⟩
  | .error e => .error ("taskengine: gate result (" ++ r.2.text ++
      ") is not JSON-serializable: " ++ e)

def unmarshalGateResult (codec : Codec) (raw : GateRecord) : Except String Typed :=
  if raw.type = .nil then .ok (.nil, .nil)
  else
    match codec.unmarshal raw.type raw.value with
    | .ok d => .ok (d, raw.type)
    | .error e => .error ("taskengine: gate result: " ++ e)

/-! ## 2. The world of a gated run -/

/-- `EvaluationResult`, as the gate reads it.  No action stands for one of an unknown name. -/
structure Ruling where
  action : Option Hitl.Action
  policyName : String
  matchedRule : Option Nat
  detail : String
  deriving DecidableEq, Repr

/-- Where the gate puts a call: its tool's precheck refuses it, the policy cannot be evaluated, or
what the policy says; an action of an unknown name lets it through. -/
inductive Tier
  | refused
  | unjudged
  | deny
  | approve
  | allow
  deriving DecidableEq, Repr

/-- A call that went through the gate: the attempt it was made in, where the gate put it, what the
tool answered if it ran, whether the outcome could not be recorded, and the gate's answer. -/
structure GateEvent where
  attempt : Nat
  callID : String
  tier : Tier
  ran : Option (ExecResult Typed)
  unrecorded : Bool
  result : ExecResult Typed

/-- What all attempts share: the world of the tools, the checkpoint's row with the record it may
hold, and the log. -/
structure Shared (σ : Type) where
  outer : σ
  row : Option (Option GateRecord)
  log : List GateEvent

/-- The world as one attempt sees it: with its own store of outcomes. -/
structure GateWorld (σ : Type) extends Shared σ where
  attempt : Nat
  memory : Vars

/-- The surroundings of the gate in a resume of `approvalID`: the verdict, the encoding, and what
the tools, the policy and the database say in a world. -/
structure Gate (σ α : Type) where
  approvalID : String
  approved : Bool
  codec : Codec
  /-- the error of the tool's precheck, as the engine classes it -/
  precheck : σ → ToolsCall → α → Option (ExecResult Typed)
  evaluate : σ → ToolsCall → α → Except String Ruling
  denyMessage : σ → String → String
  /-- an ask under an id that has no verdict, and what came of it -/
  gateOnApproval : σ → ToolsCall → α → Ruling → σ × ExecResult Typed
  /-- the error of the statement that updates the row -/
  updateFails : σ → Option String

/-! ## 3. `HITLWrapper.Exec` -/

def denyMessage : String :=
  "User denied the operation. Please ask for clarification or try a different, " ++
  "less destructive approach."

def policyDenyMessage (r : Ruling) : String :=
  let name := GoStrings.trimSpace r.policyName
  let detail := GoStrings.trimSpace r.detail
  "Denied by the active policy" ++ (if name ≠ "" then " " ++ name else "") ++
  (match r.matchedRule with
    | some n => " (rule " ++ toString n ++ ")"
    | none => "") ++
  "." ++ (if detail ≠ "" then " " ++ detail ++ "." else "") ++
  " This is the envelope refusing the capability, not a transient error and not a judgement " ++
  "about this particular call. Do not retry it and do not attempt another route to the same " ++
  "effect. Either continue with the work you can still do, or stop and report that you are " ++
  "blocked on this."

def errGateRecordFailed : String :=
  "taskengine: gated call executed but recording its result failed"

/-- The call is put on the log and answered. -/
def GateWorld.answer {σ : Type} (w : GateWorld σ) (call : ToolsCall) (tier : Tier)
    (ran : Option (ExecResult Typed)) (unrecorded : Bool) (result : ExecResult Typed) :
    GateWorld σ × ExecResult Typed :=
  ({ w with log := w.log ++ [⟨w.attempt, call.callID, tier, ran, unrecorded, result⟩] },
    result)

section Exec

variable (g : Gate σ α) (inner : σ → ToolsCall → α → σ × ExecResult Typed)

/-- The recorder of a resume: the store first, so that a retry in this process replays even where
the row could not be written. -/
def recordGateResult (w : GateWorld σ) (callID : String) (res : Typed) :
    GateWorld σ × Option String :=
  if callID ≠ g.approvalID then (w, none)
  else
    let w' : GateWorld σ := { w with memory := w.memory.store callID res }
    match marshalGateResult g.codec res with
    | .error e => (w', some e)
    | .ok raw =>
      match g.updateFails w.outer with
      | some e => (w', some ("chain_checkpoints: update payload " ++ callID ++ ": " ++ e))
      | none =>
        match w.row with
        | none => (w', some "libdb: not found")
        | some _ => ({ w' with row := some (some raw) }, none)

/-- A call with an approving verdict. -/
def runApproved (w : GateWorld σ) (call : ToolsCall) (args : α) :
    GateWorld σ × ExecResult Typed :=
  match w.memory.lookup call.callID with
  | some rec => w.answer call .approve none false (.done rec)
  | none =>
    match inner w.outer call args with
    | (o, .done res) =>
      match recordGateResult g { w with outer := o } call.callID res with
      | (w', none) => w'.answer call .approve (some (.done res)) false (.done res)
      | (w', some e) => w'.answer call .approve (some (.done res)) true (.ended nothing
          ("hitl: gated call " ++ call.callID ++ ": " ++ errGateRecordFailed ++ ": " ++ e))
    | (o, res) => { w with outer := o }.answer call .approve (some res) false res

def gatedExec (w : GateWorld σ) (call : ToolsCall) (args : α) : GateWorld σ × ExecResult Typed :=
  match g.precheck w.outer call args with
  | some refused => w.answer call .refused none false refused
  | none =>
    match g.evaluate w.outer call args with
    | .error _ => w.answer call .unjudged none false (.done (.str denyMessage, .string))
    | .ok ruling =>
      match ruling.action with
      | some .deny =>
        w.answer call .deny none false (.done (.str (policyDenyMessage ruling), .string))
      | some .approve =>
        if call.callID = g.approvalID then
          if g.approved then runApproved g inner w call args
          else w.answer call .approve none false
            (.done (.str (g.denyMessage w.outer call.callID), .string))
        else
          let (o, res) := g.gateOnApproval w.outer call args ruling
          { w with outer := o }.answer call .approve (some res) false res
      | some .allow | none =>
        let (o, res) := inner w.outer call args
        { w with outer := o }.answer call .allow (some res) false res

end Exec

/-- The handlers of tasks, with the gate in front of every tool. -/
def Gate.handlers {σ α : Type} (g : Gate σ α) (hd : Handlers σ α Typed) :
    Handlers (GateWorld σ) α Typed where
  outside tools :=
    let out := hd.outside tools
    { exec := gatedExec g out.exec
      supports := out.supports
      countTokens := out.countTokens
      parseArguments := out.parseArguments
      withText := out.withText
      serialize := out.serialize
      capContent := out.capContent
      errorContent := out.errorContent
      quote := out.quote
      suggestion := out.suggestion
      table := fun w => out.table w.outer }
  table_sub tools w := hd.table_sub tools w.outer
  canceled w := hd.canceled w.outer
  complete w call h :=
    let (o, res) := hd.complete w.outer call h
    ({ w with outer := o }, res)
  countHistory w := hd.countHistory w.outer
  prompt w call text :=
    let (o, res) := hd.prompt w.outer call text
    ({ w with outer := o }, res)
  slide w := hd.slide w.outer
  routePrompt := hd.routePrompt
  formatInt := hd.formatInt
  shift := hd.shift
  uniqueCallID w := hd.uniqueCallID w.outer
  blockInput := hd.blockInput
  resultValue := hd.resultValue
  normalize := hd.normalize
  renderOutput := hd.renderOutput
  goType := hd.goType

/-! ## 4. What a call can do -/

variable {call : ToolsCall}

section Effect

variable {g : Gate σ α}

/-- The call of the entry ran, and `raw` is the record of its outcome. -/
def GateEvent.Wrote (g : Gate σ α) (e : GateEvent) (raw : GateRecord) : Prop :=
  e.callID = g.approvalID ∧
    ∃ res, e.ran = some (.done res) ∧ marshalGateResult g.codec res = .ok raw

/-- The approved call does not run unless the policy lets it through, and on the approve tier the
entry is a replay of `rec`. -/
def GateEvent.Replays (g : Gate σ α) (e : GateEvent) (rec : Typed) : Prop :=
  e.callID = g.approvalID →
    (e.tier ≠ .allow → e.ran = none) ∧ (e.tier = .approve → e.result = .done rec)

/-- What calls of one attempt do: they add `new` to the log, and write the row only with the
outcome of one of them.  An outcome the store holds stays, and is replayed. -/
structure GateEffect (g : Gate σ α) (w : GateWorld σ) (new : List GateEvent) (w' : GateWorld σ) :
    Prop where
  attempt : w'.attempt = w.attempt
  log : w'.log = w.log ++ new
  own : ∀ e ∈ new, e.attempt = w.attempt
  row : w'.row = w.row ∨ ∃ e ∈ new, ∃ raw, e.Wrote g raw ∧ w'.row = some (some raw)
  replays : ∀ rec, w.memory.lookup g.approvalID = some rec →
    w'.memory.lookup g.approvalID = some rec ∧ w'.row = w.row ∧ ∀ e ∈ new, e.Replays g rec

theorem GateEffect.outer (w : GateWorld σ) (o : σ) : GateEffect g w [] { w with outer := o } where
  attempt := rfl
  log := (List.append_nil _).symm
  own := by simp
  row := .inl rfl
  replays := fun _ h => ⟨h, rfl, by simp⟩

theorem GateEffect.trans {w w' w'' : GateWorld σ} {new new' : List GateEvent}
    (h : GateEffect g w new w') (h' : GateEffect g w' new' w'') :
    GateEffect g w (new ++ new') w'' where
  attempt := h'.attempt.trans h.attempt
  log := by rw [h'.log, h.log, List.append_assoc]
  own := List.forall_mem_append.mpr ⟨h.own, fun e he => (h'.own e he).trans h.attempt⟩
  row := by
    rcases h'.row with heq | ⟨e, he, raw, hwrote, heq⟩
    · rcases h.row with heq' | ⟨e, he, raw, hwrote, heq'⟩
      · exact .inl (heq.trans heq')
      · exact .inr ⟨e, List.mem_append_left _ he, raw, hwrote, heq.trans heq'⟩
    · exact .inr ⟨e, List.mem_append_right _ he, raw, hwrote, heq⟩
  replays := by
    intro rec hrec
    obtain ⟨hmem, hrow, hnew⟩ := h.replays rec hrec
    obtain ⟨hmem', hrow', hnew'⟩ := h'.replays rec hmem
    exact ⟨hmem', hrow'.trans hrow, List.forall_mem_append.mpr ⟨hnew, hnew'⟩⟩

/-- The entry is for an approved call that ran, and whose outcome is in the store only. -/
def GateEvent.Lost (g : Gate σ α) (e : GateEvent) (w : GateWorld σ) : Prop :=
  e.unrecorded = true ∧ e.callID = g.approvalID ∧
    ∃ res, e.ran = some (.done res) ∧ w.memory.lookup g.approvalID = some res

/-- What the gate does with one call: an answer, of which the engine can say no more, or the
error that ends the task, where the outcome is lost to the row. -/
inductive CallSpec (g : Gate σ α) (w : GateWorld σ) : GateWorld σ × ExecResult Typed → Prop
  | answered {e : GateEvent} {w' : GateWorld σ} {res : ExecResult Typed}
      (eff : GateEffect g w [e] w') (recorded : e.unrecorded = false) : CallSpec g w (w', res)
  | lost {e : GateEvent} {w' : GateWorld σ} {err : String} (eff : GateEffect g w [e] w')
      (lost : e.Lost g w') : CallSpec g w (w', .ended nothing err)

/-- A call that leaves the gate's own state alone. -/
theorem answer_spec (w : GateWorld σ) (o : σ) (call : ToolsCall) (tier : Tier)
    (ran : Option (ExecResult Typed)) (result : ExecResult Typed)
    (hreplays : call.callID = g.approvalID → ∀ rec, w.memory.lookup g.approvalID = some rec →
      (tier ≠ .allow → ran = none) ∧ (tier = .approve → result = .done rec)) :
    CallSpec g w (({ w with outer := o } : GateWorld σ).answer call tier ran false result) := by
  refine .answered
    ⟨rfl, rfl, by simp, .inl rfl, ?_⟩ rfl
  intro rec hrec
  refine ⟨hrec, rfl, ?_⟩
  intro e he
  rw [List.mem_singleton.mp he]
  exact fun hid => hreplays hid rec hrec

/-- What the recorder does with an outcome the store does not hold yet. -/
theorem recordGateResult_spec (w : GateWorld σ) {callID : String} (res : Typed)
    (hid : callID = g.approvalID) :
    (∃ raw, marshalGateResult g.codec res = .ok raw ∧
      recordGateResult g w callID res =
        ({ w with memory := w.memory.store callID res, row := some (some raw) }, none)) ∨
    ∃ e, recordGateResult g w callID res =
      ({ w with memory := w.memory.store callID res }, some e) := by
  unfold recordGateResult
  rw [if_neg (not_not_intro hid)]
  split
  · exact .inr ⟨_, rfl⟩
  rename_i raw hraw
  split
  · exact .inr ⟨_, rfl⟩
  split
  · exact .inr ⟨_, rfl⟩
  · exact .inl ⟨raw, hraw, rfl⟩

/-- The first run of the approved call in an attempt. -/
theorem firstRun_spec {w : GateWorld σ} (o : σ) (res : Typed) (hid : call.callID = g.approvalID)
    (hmem : w.memory.lookup g.approvalID = none) :
    (∀ w', recordGateResult g { w with outer := o } call.callID res = (w', none) →
      CallSpec g w (w'.answer call .approve (some (.done res)) false (.done res))) ∧
    ∀ w' e err, recordGateResult g { w with outer := o } call.callID res = (w', some e) →
      CallSpec g w (w'.answer call .approve (some (.done res)) true (.ended nothing err)) := by
  have hnew : ∀ rec, w.memory.lookup g.approvalID ≠ some rec := by simp [hmem]
  have hstored : (w.memory.store call.callID res).lookup g.approvalID = some res := by simp [hid]
  rcases recordGateResult_spec { w with outer := o } res hid with ⟨raw, hraw, heq⟩ | ⟨e₀, heq⟩
  · rw [heq]
    refine ⟨?_, by simp⟩
    intro w' hw'
    cases hw'
    exact .answered
      ⟨rfl, rfl, by simp, .inr ⟨_, List.mem_singleton_self _, raw, ⟨hid, res, rfl, hraw⟩, rfl⟩,
        fun rec hrec => absurd hrec (hnew rec)⟩ rfl
  · rw [heq]
    refine ⟨by simp, ?_⟩
    intro w' e err hw'
    cases hw'
    exact .lost
      ⟨rfl, rfl, by simp, .inl rfl, fun rec hrec => absurd hrec (hnew rec)⟩
      ⟨rfl, hid, res, rfl, hstored⟩

theorem runApproved_spec (inner : σ → ToolsCall → α → σ × ExecResult Typed) (w : GateWorld σ)
    (args : α) (hid : call.callID = g.approvalID) :
    CallSpec g w (runApproved g inner w call args) := by
  unfold runApproved
  split
  · rename_i rec hrec
    refine answer_spec w w.outer call .approve none _ ?_
    intro _ rec' hrec'
    rw [← hid, hrec] at hrec'
    exact ⟨fun _ => rfl, fun _ => by rw [Option.some.inj hrec']⟩
  · rename_i hmem
    rw [hid] at hmem
    split
    · rename_i o res _
      obtain ⟨hok, hlost⟩ := firstRun_spec o res hid hmem
      split
      · rename_i w' hw'
        exact hok w' hw'
      · rename_i w' e hw'
        exact hlost w' e _ hw'
    · rename_i o res _ _
      refine answer_spec w o call .approve _ _ ?_
      intro _ rec hrec
      rw [hmem] at hrec
      cases hrec

/-- Everything the gate can do with a call in a resume after an approval. -/
theorem gatedExec_spec (happroved : g.approved = true)
    (inner : σ → ToolsCall → α → σ × ExecResult Typed) (w : GateWorld σ) (call : ToolsCall)
    (args : α) : CallSpec g w (gatedExec g inner w call args) := by
  have hkept : ∀ tier, tier ≠ .approve → ∀ result, CallSpec g w
      (w.answer call tier none false result) :=
    fun tier htier result => answer_spec w w.outer call tier none result
      fun _ _ _ => ⟨fun _ => rfl, fun h => absurd h htier⟩
  have hlet : ∀ (o : σ) ran result, CallSpec g w
      (({ w with outer := o } : GateWorld σ).answer call .allow ran false result) :=
    fun o ran result => answer_spec w o call .allow ran result
      fun _ _ _ => ⟨fun h => absurd rfl h, fun h => by cases h⟩
  unfold gatedExec
  iterate 3
    split
    · exact hkept _ (by decide) _
  · split
    · rename_i hid
      exact runApproved_spec inner w args hid
    · rename_i hid
      exact answer_spec w _ call .approve _ _ (fun h => absurd h hid)
  · exact hlet _ _ _
  · exact hlet _ _ _

end Effect

/-! ## 5. What a task can do -/

section

variable {ρ : Type} {hd : Handlers σ α ρ} {E F : σ → σ → Prop}

/-- What every call of the surroundings does to the world: `E`, which composes, or `F` where the
call ends the task. -/
structure Effects (hd : Handlers σ α ρ) (E F : σ → σ → Prop) : Prop where
  refl : ∀ w, E w w
  trans : ∀ {a b c}, E a b → E b c → E a c
  fails : ∀ {a b c}, E a b → F b c → F a c
  exec : ∀ tools w call args, E w ((hd.outside tools).exec w call args).1 ∨
    F w ((hd.outside tools).exec w call args).1 ∧
      ∃ r e, ((hd.outside tools).exec w call args).2 = .ended r e
  complete : ∀ w call h, E w (hd.complete w call h).1
  prompt : ∀ w call text, E w (hd.prompt w call text).1

/-- A turn is calm, or it stops the batch with an error. -/
inductive TurnEffect (E F : σ → σ → Prop) (w : σ) : Turn σ → Prop
  | calm {t : Turn σ} (h : E w t.batch.world) : TurnEffect E F w t
  | failed {b : Batch σ} (h : F w b.world) (err : b.taskErr.isSome) : TurnEffect E F w (.stop b)

/-- A task is calm, or it fails. -/
inductive TaskEffect (E F : σ → σ → Prop) (w : σ) : Recorded σ × TaskResult → Prop
  | calm {w' : Recorded σ} {res : TaskResult} (h : E w w'.1) : TaskEffect E F w (w', res)
  | failed {w' : Recorded σ} {output : Typed} {err : String} (h : F w w'.1) :
      TaskEffect E F w (w', .failed output err)

theorem Effects.made (h : Effects hd E F) {tools : List ToolWithResolution} {w w' : σ} {args : α}
    {res : ExecResult ρ} (made : (hd.outside tools).exec w call args = (w', res)) :
    E w w' ∨ F w w' ∧ ∃ r e, res = .ended r e := by
  have hexec := h.exec tools w call args
  rwa [made] at hexec

theorem turn_effect (h : Effects hd E F) (tools : List ToolWithResolution) (task : ToolTask) (scope : Option (List String)) (b : Batch σ) (tc : ToolCall) :
    TurnEffect E F b.world (turn (hd.outside tools) task scope b tc) := by
  have hcases := turn_cases (hd.outside tools) task scope b tc
  generalize turn (hd.outside tools) task scope b tc = t at hcases
  cases hcases with
  | skipped | refused | unparsed | aborted => exact .calm (h.refl _)
  | waits adm made =>
    rcases h.made made with hE | ⟨-, r, e, hended⟩
    · exact .calm hE
    · cases hended
  | ran adm made answer =>
    rcases h.made made with hE | ⟨-, r, e, hended⟩
    · exact .calm hE
    · rcases answer with ⟨r, rfl, -⟩ | ⟨r, e, rfl⟩
      · cases hended
      · cases hended
  | stopped adm made =>
    rcases h.made made with hE | ⟨hF, -⟩
    · exact .calm hE
    · exact .failed hF rfl

/-- A loop over the batch: calm turns, and at most one at its end that is not. -/
theorem turns_effect (h : Effects hd E F) (tools : List ToolWithResolution) (task : ToolTask) (scope : Option (List String)) (calls : List ToolCall) (b : Batch σ) :
    TurnEffect E F b.world (turns (hd.outside tools) task scope calls b) := by
  induction calls generalizing b with
  | nil => exact .calm (h.refl _)
  | cons tc rest ih =>
    have hturn := turn_effect h tools task scope b tc
    rw [turns]
    split
    · rename_i b' heq
      rw [heq] at hturn
      cases hturn with
      | calm hE =>
        have hrest := ih b'
        generalize turns (hd.outside tools) task scope rest b' = t at hrest
        cases hrest with
        | calm hE' => exact .calm (h.trans hE hE')
        | failed hF err => exact .failed (h.fails hE hF) err
    · exact hturn

theorem stubs_world_err (out : Outside σ α ρ) (calls : List ToolCall) (b : Batch σ) :
    (stubs out calls b).world = b.world ∧ (stubs out calls b).taskErr = b.taskErr := by
  induction calls generalizing b with
  | nil => exact ⟨rfl, rfl⟩
  | cons tc rest ih =>
    rw [stubs]
    split
    · exact ih b
    · exact ih _

theorem Turn.close_world (out : Outside σ α ρ) (calls : List ToolCall) (t : Turn σ) :
    (t.close out calls).batch.world = t.batch.world := by
  cases t with
  | next b | stop b => exact (stubs_world_err out calls b).1
  | suspend | abort => rfl

/-- A batch is calm, or its task fails. -/
theorem runBatch_effect (h : Effects hd E F) (w : Recorded σ) (call : TaskCall)
    (task : TaskDefinition) (hist : ChatHistory) :
    E w.1 (runBatch hd w call task hist).1.1 ∨ F w.1 (runBatch hd w call task hist).1.1 ∧
      ∃ output err, batchResult (runBatch hd w call task hist).2 = .failed output err := by
  unfold runBatch
  dsimp only
  have hcases := executeToolCalls_cases (hd.outside call.tools) (toolTask call task) w.1 hist
  generalize executeToolCalls (hd.outside call.tools) (toolTask call task)
    w.1 hist = o at hcases
  cases hcases with
  | idle | unscoped => exact .inl (h.refl _)
  | @worked scope hscope calls answered =>
    have hturns := turns_effect h call.tools (toolTask call task) scope calls
      ⟨w.1, hist, answered, none, false, []⟩
    generalize turns (hd.outside call.tools) (toolTask call task) scope calls _ = t
      at hturns
    rw [Turn.close_world]
    cases hturns with
    | calm hE => exact .inl hE
    | @failed b hF err =>
      obtain ⟨e, he⟩ := Option.isSome_iff_exists.mp err
      have herr := (stubs_world_err (hd.outside call.tools) calls b).2.trans he
      refine .inr ⟨hF, (.history (stubs (hd.outside call.tools) calls b).history, .chatHistory), e, ?_⟩
      unfold Turn.close finish batchResult
      dsimp only
      rw [herr]

theorem ChatSpec.effect (h : Effects hd E F) {w : Recorded σ} {call : TaskCall}
    {p : Recorded σ × TaskResult} (chat : ChatSpec hd w call p) : E w.1 p.1.1 := by
  cases chat with
  | refused => exact h.refl _
  | failed | answered => exact h.complete _ _ _

/-- Whatever its handler, a task is calm, or it fails. -/
theorem taskExec_effect (h : Effects hd E F) (w : Recorded σ) (call : TaskCall) :
    TaskEffect E F w.1 (taskExec hd w call) := by
  have hblock := h.exec call.tools w.1 (blockCall hd w.1 call.task) (hd.blockInput call.input.1)
  change E w.1 (blockWorld hd w call).1 ∨ F w.1 (blockWorld hd w call).1 ∧
    ∃ r e, (blockRun hd w call).2 = .ended r e at hblock
  have hspec := taskExec_spec hd w call
  generalize taskExec hd w call = p at hspec
  cases hspec with
  | refused | declined | noop => exact .calm (h.refl _)
  | routeFails | routes => exact .calm (h.prompt _ _ _)
  | completes _ chat => exact .calm (chat.effect h)
  | flushFails _ hist =>
    rcases runBatch_effect h w call (withConfig call.task) hist with hE | ⟨hF, -⟩
    · exact .calm hE
    · exact .failed hF
  | @flushWaits _ hist _ _ _ _ result =>
    rcases runBatch_effect h w call (withConfig call.task) hist with hE | ⟨-, _, _, hfailed⟩
    · exact .calm hE
    · rw [result] at hfailed
      cases hfailed
  | @flushes _ hist _ _ _ result chat =>
    rcases runBatch_effect h w call (withConfig call.task) hist with hE | ⟨-, _, _, hfailed⟩
    · exact .calm (h.trans hE (chat.effect h))
    · rw [result] at hfailed
      cases hfailed
  | batch _ hist =>
    rcases runBatch_effect h w call call.task hist with hE | ⟨hF, _, _, hfailed⟩
    · exact .calm hE
    · rw [hfailed]
      exact .failed hF
  | blockFails =>
    rcases hblock with hE | ⟨hF, -⟩
    · exact .calm hE
    · exact .failed hF
  | blockWaits _ result | blockRuns _ result =>
    rcases hblock with hE | ⟨-, _, _, hended⟩
    · exact .calm hE
    · rw [result] at hended
      cases hended

end

/-! ## 6. Tasks behind the gate -/

section

variable {g : Gate σ α}

/-- Calls whose outcomes were all recorded, where there was one to record. -/
def Calm (g : Gate σ α) (w w' : GateWorld σ) : Prop :=
  ∃ new, GateEffect g w new w' ∧ ∀ e ∈ new, e.unrecorded = false

/-- Such calls, and after them one whose outcome could not be recorded. -/
def Loses (g : Gate σ α) (w w' : GateWorld σ) : Prop :=
  ∃ new e, GateEffect g w (new ++ [e]) w' ∧ (∀ e' ∈ new, e'.unrecorded = false) ∧ e.Lost g w'

theorem Calm.trans {a b c : GateWorld σ} (h : Calm g a b) (h' : Calm g b c) : Calm g a c := by
  obtain ⟨new, heff, hrec⟩ := h
  obtain ⟨new', heff', hrec'⟩ := h'
  exact ⟨new ++ new', heff.trans heff', List.forall_mem_append.mpr ⟨hrec, hrec'⟩⟩

theorem Calm.loses {a b c : GateWorld σ} (h : Calm g a b) (h' : Loses g b c) : Loses g a c := by
  obtain ⟨new, heff, hrec⟩ := h
  obtain ⟨new', e, heff', hrec', hlost⟩ := h'
  refine ⟨new ++ new', e, ?_, List.forall_mem_append.mpr ⟨hrec, hrec'⟩, hlost⟩
  rw [List.append_assoc]
  exact heff.trans heff'

theorem Calm.outer (w : GateWorld σ) (o : σ) : Calm g w { w with outer := o } :=
  ⟨[], GateEffect.outer w o, by simp⟩

theorem gate_effects (happroved : g.approved = true) (hd : Handlers σ α Typed) :
    Effects (g.handlers hd) (Calm g) (Loses g) where
  refl := fun w => Calm.outer w w.outer
  trans := Calm.trans
  fails := Calm.loses
  exec := by
    intro tools w call args
    have hspec := gatedExec_spec happroved (hd.outside tools).exec w call args
    change Calm g w (gatedExec g (hd.outside tools).exec w call args).1 ∨
      Loses g w (gatedExec g (hd.outside tools).exec w call args).1 ∧
        ∃ r e, (gatedExec g (hd.outside tools).exec w call args).2 = .ended r e
    generalize gatedExec g (hd.outside tools).exec w call args = answer at hspec
    cases hspec with
    | answered eff recorded => exact .inl ⟨_, eff, by simpa using recorded⟩
    | lost eff lost => exact .inr ⟨⟨[], _, eff, by simp, lost⟩, _, _, rfl⟩
  complete := fun w call h => Calm.outer w _
  prompt := fun w call text => Calm.outer w _

end

end Contenox.Engine
