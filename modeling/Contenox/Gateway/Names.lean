/-
# By what text a selection names its backend

An envelope lists backends by id or by the name their operator gave them.  A selection has the text its
provider goes by, which is the base URL for most kinds of provider (`GetBackendIDs`), and `backendName`
looks for that text among the ids.
-/
import Contenox.Gateway.Envelope

namespace Contenox.Gateway

open Lib Lib.Prog

/-- The backends are observed in this state. -/
def Observes (state : List BackendState) (e : Event Op Op.Res) : Prop :=
  ∀ seen, e = ⟨.observed, seen⟩ → seen = state

def BackendState.operatorName (s : BackendState) : String :=
  if s.backendName ≠ "" then s.backendName else s.name

/-- An allowlist names a backend, by its id or by its name. -/
def Lists (allowed : List String) (s : BackendState) : Prop :=
  allowlistContains allowed s.backendID = true ∨ allowlistContains allowed s.operatorName = true

/-- A backend's state is filed under the id of the backend, and no two under one. -/
structure Filed (state : List BackendState) : Prop where
  id : ∀ s ∈ state, s.id = s.backendID
  distinct : ∀ s ∈ state, ∀ t ∈ state, s.backendID = t.backendID → s = t

section Bound

variable {state : List BackendState} {s : BackendState} {m : Manager} {ctx : Ctx} {call : Call}
  {x : Selection}

theorem nameIn_id (h : Filed state) (hs : s ∈ state) (hne : s.backendID ≠ "") :
    nameIn state s.backendID = s.operatorName := by
  unfold nameIn
  rw [if_neg hne]
  cases hf : state.find? fun t => t.backendID = s.backendID || t.id = s.backendID with
  | none => simpa using List.find?_eq_none.mp hf s hs
  | some t =>
    have ht := List.mem_of_find?_eq_some hf
    have hid : t.backendID = s.backendID := by simpa [h.id t ht] using List.find?_some hf
    rw [h.distinct t ht s hs hid]
    rfl

theorem nameIn_other (h : Filed state) {text : String} (hno : ∀ t ∈ state, t.backendID ≠ text) :
    nameIn state text = "" := by
  unfold nameIn
  split
  · rfl
  have hf : (state.find? fun t => t.backendID = text || t.id = text) = none := by
    refine List.find?_eq_none.mpr fun t ht => ?_
    simpa [h.id t ht] using hno t ht
  rw [hf]

theorem backendAllowed_iff (allowed : List String) (text : String) (h : History) :
    Meets (Observes state) (fun _ _ => True) (fun _ r => r = true ↔
      allowlistContains allowed text = true ∨ allowlistContains allowed (nameIn state text) = true)
      h (backendAllowed allowed text) := by
  refine meets_ite (fun hc => meets_pure (by simp [hc])) fun hc => ?_
  refine meets_perform trivial fun seen hseen => meets_pure ?_
  rw [hseen seen rfl]
  by_cases hname : nameIn state text = ""
  · simp [hname, hc, show allowlistContains allowed "" = false from rfl]
  · simp [hname, hc]

/-- The check on the backend, once the model is allowed. -/
theorem enforce_iff (hmodel : ctx.bounds.models ≠ [] →
      allowlistContains ctx.bounds.models x.provider.modelName = true)
    (hb : ctx.bounds.backends ≠ []) :
    Meets (Observes state) (fun _ _ => True)
      (fun _ r => r = none ↔ allowlistContains ctx.bounds.backends x.backend = true ∨
        allowlistContains ctx.bounds.backends (nameIn state x.backend) = true) []
      (enforceResolutionBounds m ctx call x) := by
  refine meets_ite (fun hz => absurd hz (by simp [ResolutionBounds.isZero, hb])) fun _ => ?_
  refine meets_ite (fun hm => absurd (hmodel hm.1) (by simp [hm.2])) fun _ => ?_
  refine meets_ite (fun _ => ?_) (absurd hb)
  refine (backendAllowed_iff _ _ _).bind fun h r hr => meets_ite (fun ht => ?_) fun hf => ?_
  · exact meets_pure (by simp [hr.mp ht])
  · refine meets_perform trivial fun _ _ => meets_pure ?_
    simp [hf, ← hr]

end Bound

/-- **A listed backend is refused by the text its provider goes by.**  Where that is the backend's id the
selection passes; where it is no backend's id, only a list with the text itself lets it pass. -/
theorem listed_backend_passes (m : Manager) (ctx : Ctx) (call : Call) {state : List BackendState}
    (hfiled : Filed state) {s : BackendState} (hs : s ∈ state) (hlisted : Lists ctx.bounds.backends s)
    (x : Selection) (hmodel : ctx.bounds.models ≠ [] →
      allowlistContains ctx.bounds.models x.provider.modelName = true) :
    (x.backend = s.backendID ∧ x.backend ≠ "" → Meets (Observes state) (fun _ _ => True)
      (fun _ r => r = none) [] (enforceResolutionBounds m ctx call x)) ∧
    ((∀ t ∈ state, t.backendID ≠ x.backend) → Meets (Observes state) (fun _ _ => True)
      (fun _ r => r = none ↔ allowlistContains ctx.bounds.backends x.backend = true) []
      (enforceResolutionBounds m ctx call x)) := by
  have hb : ctx.bounds.backends ≠ [] := by
    intro hnil
    rw [hnil] at hlisted
    simp [Lists, allowlistContains] at hlisted
  refine ⟨fun ⟨hid, hne⟩ => ?_, fun hno => ?_⟩
  · refine (enforce_iff hmodel hb).mono (fun _ _ => id) fun _ r hr => hr.mpr ?_
    rw [hid, nameIn_id hfiled hs (hid ▸ hne)]
    exact hlisted
  · refine (enforce_iff hmodel hb).mono (fun _ _ => id) fun _ r hr => hr.trans ?_
    rw [nameIn_other hfiled hno]
    simp [show allowlistContains ctx.bounds.backends "" = false from rfl]

/-- A backend with a URL, and an envelope that lists its id. -/
def gpuState : BackendState := ⟨"b1", "gpu", "b1", "gpu", "ollama", "http://gpu", "", []⟩

def gpuCtx : Ctx := { bounds := { backends := ["b1"] } }

/-- A selection of it, by a text. -/
def gpuSelection (text : String) : Selection :=
  ⟨⟨"p", "m", "ollama", [text], 0, true, true, true, true, false, false⟩, text⟩

def gpuManager (text : String) : Manager where
  providersOf _ := [(gpuSelection text).provider]
  quote := id
  score _ _ _ := 0

theorem listed_backend_passes_id :
    Meets (Observes [gpuState]) (fun _ _ => True) (fun _ r => r = none) []
      (enforceResolutionBounds (gpuManager "b1") gpuCtx .chat (gpuSelection "b1")) :=
  (listed_backend_passes _ gpuCtx .chat ⟨by simp [gpuState], by simp⟩
    (List.mem_singleton_self gpuState) (.inl (by decide)) (gpuSelection "b1") (absurd rfl)).1
    ⟨rfl, by decide⟩

/-- The provider of such a backend goes by its URL, and is refused. -/
theorem listed_backend_refused : Lists gpuCtx.bounds.backends gpuState ∧
    (gpuSelection "http://gpu").provider ∈
      localProviderAdapter (gpuManager "http://gpu").providersOf [gpuState] [] ∧
    ∃ es err, Run (enforceResolutionBounds (gpuManager "http://gpu") gpuCtx .chat
        (gpuSelection "http://gpu")) es (.ret (some err)) ∧
      (∀ e ∈ es, Observes [gpuState] e) ∧ err.is .resolutionOutOfBounds = true := by
  have run := Run.next (o := Op.observed) [gpuState] (Run.next (o := Op.observed) [gpuState]
    (Run.start (p := enforceResolutionBounds (gpuManager "http://gpu") gpuCtx .chat
      (gpuSelection "http://gpu"))))
  refine ⟨.inl (by decide), by decide, _, _, run, ?_, rfl⟩
  intro e he seen hseen
  subst hseen
  simpa using he

end Contenox.Gateway
