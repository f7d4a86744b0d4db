/-
# No prompt leaves the mission's envelope

A mission's envelope may list the models and the backends its requests may use.  The check is
made candidate by candidate, inside the walks, and not when the candidates are gathered: the
resolver matches NORMALIZED names and would widen the list.  So the question is whether every
`send` of every walk has passed the check, also the ones that come after a failover, after a
skipped candidate or after a reconcile.

`Within` says what a passed check means, at the exchanges made so far: the operator-facing
name of a backend is the one observed when the check was made.  `enforce_within` is the check
itself, and each walk keeps to `Sends Within` because a selection is only asked after it.
-/
import Contenox.Gateway.Manager

namespace Contenox.Gateway

open Lib Lib.Prog

variable {A : Event Op Op.Res → Prop} {m : Manager} {ctx : Ctx}

/-! ## 1. What a send must satisfy -/

/-- The exchanges of a turn so far. -/
abbrev History : Type := List (Event Op Op.Res)

/-- A statement about every prompt that is handed over. -/
def Sends (ok : History → Selection → Prop) : History → Op → Prop
  | h, .send _ p b => ok h ⟨p, b⟩
  | _, _ => True

/-- The provider's model is on a model list that is not empty, and the backend matches an
entry of a backend list that is not empty, by its id or by its name as it was observed. -/
structure Within (bounds : ResolutionBounds) (h : History) (x : Selection) : Prop where
  model : bounds.models ≠ [] → allowlistContains bounds.models x.provider.modelName = true
  backend : bounds.backends ≠ [] → allowlistContains bounds.backends x.backend = true ∨
    ∃ state, (⟨.observed, state⟩ : Event Op Op.Res) ∈ h ∧
      allowlistContains bounds.backends (nameIn state x.backend) = true

theorem Within.append {bounds : ResolutionBounds} {h : History} {x : Selection}
    (hw : Within bounds h x) (t : History) : Within bounds (h ++ t) x where
  model := hw.model
  backend hb := (hw.backend hb).imp_right fun ⟨state, hs, hc⟩ =>
    ⟨state, List.mem_append_left t hs, hc⟩

/-! ## 2. The check -/

section

variable {ok : History → Selection → Prop}

theorem backendName_observed (backend : String) (h : History) :
    Meets A (Sends ok) (fun h r => ∃ state, (⟨.observed, state⟩ : Event Op Op.Res) ∈ h ∧
      r = nameIn state backend) h (backendName backend) :=
  meets_perform trivial fun state _ => meets_pure ⟨state, by simp, rfl⟩

theorem backendAllowed_sound (allowed : List String) (backend : String) (h : History) :
    Meets A (Sends ok) (fun h r => r = true → allowlistContains allowed backend = true ∨
      ∃ state, (⟨.observed, state⟩ : Event Op Op.Res) ∈ h ∧
        allowlistContains allowed (nameIn state backend) = true) h
      (backendAllowed allowed backend) := by
  refine meets_ite (fun hc => meets_pure fun _ => .inl hc) fun _ => ?_
  refine (backendName_observed backend h).bind fun h name hn => meets_pure fun hr => ?_
  obtain ⟨state, hs, rfl⟩ := hn
  rw [Bool.and_eq_true] at hr
  exact .inr ⟨state, hs, hr.2⟩

/-- **A selection that passes the check is within the envelope.** -/
theorem enforce_within (m : Manager) (ctx : Ctx) (call : Call) (x : Selection) (h : History) :
    Meets A (Sends ok) (fun h r => r = none → Within ctx.bounds h x) h
      (enforceResolutionBounds m ctx call x) := by
  refine meets_ite (fun hz => ?_) fun _ => meets_ite (fun _ => ?_) fun hm => ?_
  · simp only [ResolutionBounds.isZero, Bool.and_eq_true, decide_eq_true_eq] at hz
    exact meets_pure fun _ => ⟨fun hne => absurd hz.1 hne, fun hne => absurd hz.2 hne⟩
  · refine meets_pure ?_
    intro hr
    cases hr
  have hmodel : ctx.bounds.models ≠ [] →
      allowlistContains ctx.bounds.models x.provider.modelName = true := by
    intro hne
    by_contra hf
    exact hm ⟨hne, Bool.not_eq_true _ ▸ hf⟩
  refine meets_ite (fun _ => ?_) fun hb => ?_
  · refine (backendAllowed_sound ctx.bounds.backends x.backend h).bind fun h r hr => ?_
    refine meets_ite (fun ht => ?_) fun _ => ?_
    · exact meets_pure fun _ => ⟨hmodel, fun _ => hr ht⟩
    refine Meets.bind (R := fun _ _ => True) ?_ fun h label _ => meets_pure ?_
    · exact (backendName_observed x.backend h).bind fun h name _ => meets_pure trivial
    · intro hr
      cases hr
  · exact meets_pure fun _ => ⟨hmodel, fun hne => absurd hne hb⟩

/-- What the steps before a selection is asked establish, when they end in `ready`. -/
theorem open_within (m : Manager) (ctx : Ctx) (call : Call) (lead : String)
    (refusals : List RefusedBy) (x : Selection) (h : History) :
    Meets A (Sends ok) (fun h r => r = .ready → Within ctx.bounds h x) h
      (openSelection m ctx call lead refusals x) := by
  refine (enforce_within m ctx call x h).bind fun h r hr => ?_
  cases r with
  | some err => exact meets_pure fun h => absurd h (passOver_ne_ready _ _ _ _)
  | none =>
    refine meets_perform trivial fun r _ => ?_
    cases r with
    | some err => exact meets_pure fun h => absurd h (passOver_ne_ready _ _ _ _)
    | none => exact meets_pure fun _ => (hr rfl).append _

end

/-! ## 3. The selections of a call -/

/-- A selection that a request for these names may come to: its provider was observed, at an
exchange the assumption admits, and answers to one of the names. -/
def Reached (m : Manager) (A : Event Op Op.Res → Prop) (names : List String) (x : Selection) :
    Prop :=
  ∃ state types, A ⟨.observed, state⟩ ∧ x.provider ∈ localProviderAdapter m.providersOf state types ∧
    (names ≠ [] → providerMatchesAnyName x.provider names = true)

variable {types : List String}

section Selections

variable {ok : History → Selection → Prop}

theorem randomly_picks (candidates : List Provider) (h : History) :
    Meets A (Sends ok) (fun _ r => ∀ x, r = .ok x → x.provider ∈ candidates) h
      (randomly candidates) := by
  refine meets_ite (fun _ => meets_pure nofun) fun _ => meets_perform trivial fun i _ => ?_
  refine meets_ite (fun _ => meets_pure nofun) fun _ => meets_perform trivial fun j _ => ?_
  refine meets_pure ?_
  rintro x ⟨⟩
  exact List.get_mem candidates i

theorem stickyOrRandom_picks (score : String → String → String → Nat) (key : String)
    (candidates : List Provider) (h : History) :
    Meets A (Sends ok) (fun _ r => ∀ x, r = .ok x → x.provider ∈ candidates) h
      (stickyOrRandom score key candidates) := by
  refine meets_ite (fun _ => randomly_picks candidates h) fun _ => ?_
  cases hb : best (fun x => score key x.provider.id x.backend) none (pairs candidates) with
  | none => exact meets_pure nofun
  | some y =>
    refine meets_pure ?_
    rintro x ⟨⟩
    rcases mem_best hb with hb | hb
    · cases hb
    · exact (mem_pairs hb).1

/-- The ordered selections come from the candidates. -/
theorem ordered_from {candidates : Except Err (List Provider)} {S : Provider → Prop}
    (hS : ∀ l, candidates = .ok l → ∀ p ∈ l, S p) (score : String → String → String → Nat)
    (key : String) (h : History) :
    Meets A (Sends ok) (fun _ r => ∀ xs, r = .ok xs → ∀ x ∈ xs, S x.provider) h
      (ordered candidates (stickyOrRandom score key)) := by
  cases candidates with
  | error err => exact meets_pure nofun
  | ok l =>
    refine (stickyOrRandom_picks score key l h).bind fun h r hr => ?_
    cases r with
    | error err => exact meets_pure nofun
    | ok pick =>
      refine meets_pure ?_
      rintro xs ⟨⟩ x hx
      rcases mem_orderSelections hx with rfl | hx
      · exact hS l rfl _ (hr _ rfl)
      · exact hS l rfl _ (mem_pairs hx).1

/-- A resolution and its second try end in what either of them ends in. -/
theorem resolve_meets {α : Type} {select : List Provider → Turn (Except Err α)} {R : α → Prop}
    (hs : ∀ h state, A ⟨.observed, state⟩ → Meets A (Sends ok) (fun _ r => ∀ a, r = .ok a → R a) h
        (select (localProviderAdapter m.providersOf state types)))
    (h : History) :
    Meets A (Sends ok) (fun _ r => ∀ a, r = .ok a → R a) h (resolve m types select) := by
  have runtime : ∀ h, Meets A (Sends ok) (fun _ providers => ∃ state, A ⟨.observed, state⟩ ∧
      providers = localProviderAdapter m.providersOf state types) h (getRuntime m types) :=
    fun h => meets_perform trivial fun state hA => meets_pure ⟨state, hA, rfl⟩
  refine (runtime h).bind fun h providers hp => ?_
  obtain ⟨state, hA, rfl⟩ := hp
  refine (hs h state hA).bind fun h r hr => ?_
  cases r with
  | ok a => exact meets_pure hr
  | error err =>
    refine Meets.bind (R := fun _ _ => True) ?_ fun h again _ => meets_ite (fun _ => ?_) fun _ => ?_
    · exact meets_ite (fun _ => meets_perform trivial fun _ _ => meets_pure trivial)
        fun _ => meets_pure trivial
    · refine (runtime h).bind fun h providers hp => ?_
      obtain ⟨state, hA, rfl⟩ := hp
      exact hs h state hA
    · exact meets_pure nofun

end Selections

/-! ## 4. The walks -/

variable (req : Request) (refusals : List RefusedBy)

section Walks

variable {S : Selection → Prop} {xs : List Selection}

/-- The duty of a call: only selections of its own, within the envelope. -/
abbrev Only (ctx : Ctx) (S : Selection → Prop) : History → Op → Prop :=
  Sends fun h x => S x ∧ Within ctx.bounds h x

theorem health_asks (endpoint : String) (h : History) :
    Meets A (Only ctx S) (fun _ _ => True) h (backendAllowedByHealth req endpoint) :=
  meets_ite (fun _ => meets_pure trivial) fun _ =>
    meets_perform trivial fun _ _ => meets_perform trivial fun _ _ => meets_pure trivial

theorem runSelections_only {β : Type} {call : Call} {lead failure : String}
    {gate : Selection → Turn Bool} {take : Selection → Reply → Turn (Sent β)}
    (hgate : ∀ x h, Meets A (Only ctx S) (fun _ _ => True) h (gate x))
    (htake : ∀ x reply h, Meets A (Only ctx S) (fun _ _ => True) h (take x reply))
    (hS : ∀ x ∈ xs, S x) (h : History) :
    Meets A (Only ctx S) (fun _ _ => True) h
      (runSelections m ctx call lead failure gate take refusals xs) := by
  induction xs generalizing refusals h with
  | nil => exact meets_pure trivial
  | cons x rest ih =>
    have ih := fun refusals => ih refusals fun y hy => hS y (List.mem_cons_of_mem x hy)
    refine (hgate x h).bind fun h up _ => meets_ite (fun _ => ?_) fun _ => ih _ h
    refine (open_within m ctx call lead refusals x h).bind fun h r hr => ?_
    cases r with
    | failed err => exact meets_pure trivial
    | skipped refusals => exact ih _ h
    | ready =>
      refine Meets.bind (R := fun _ _ => True) ?_ fun h sent _ => ?_
      · refine meets_perform ⟨hS x List.mem_cons_self, hr rfl⟩ fun r _ => ?_
        cases r with
        | ok reply => exact htake x reply _
        | error err => exact meets_pure trivial
      · cases sent with
        | done r => exact meets_pure trivial
        | refused err => exact meets_perform trivial fun _ _ => ih _ _

end Walks

/-! ## 5. The four calls -/

section

variable {ok : History → Selection → Prop}

/-- Every selection is of a provider that answers to a name of the request. -/
theorem resolveAndRun_only {β : Type} {op : String}
    {candidates : List Provider → Except Err (List Provider)}
    {run : List Selection → Turn (Except Err β)}
    (hcand : ∀ providers l, candidates providers = .ok l → ∀ p ∈ l, p ∈ providers ∧
      (req.modelNames ≠ [] → providerMatchesAnyName p req.modelNames = true))
    (hrun : ∀ xs h, (∀ x ∈ xs, Reached m A req.modelNames x) →
      Meets A (Only ctx (Reached m A req.modelNames)) (fun _ _ => True) h (run xs)) (h : History) :
    Meets A (Only ctx (Reached m A req.modelNames)) (fun _ _ => True) h
      (resolveAndRun m ctx req op candidates run) := by
  refine (resolve_meets (R := fun xs => ∀ x ∈ xs, Reached m A req.modelNames x)
    (fun h state hA => ?_) h).bind fun h r hr => ?_
  · refine (ordered_from (fun l hl p hp => hcand _ l hl p hp) m.score _ h).mono (fun _ _ => id) ?_
    intro _ r hr xs hxs x hx
    exact ⟨state, _, hA, hr xs hxs x hx⟩
  · cases r with
    | error err => exact meets_pure trivial
    | ok xs => exact hrun xs h (hr xs rfl)

/-- **What `Chat` may send**, and where. -/
theorem chat_only (messages : Messages) (h : History) :
    Meets A (Only ctx (Reached m A
        (applyDefault true m.defaultChatModel (applyAudioDefault m messages req)).modelNames))
      (fun _ _ => True) h (m.chat ctx req messages) := by
  unfold Manager.chat
  cases validateRequest req with
  | some err => exact meets_pure trivial
  | none =>
    refine meets_ite (fun _ => meets_pure trivial) fun _ =>
      resolveAndRun_only _ (fun _ _ hl _ hp => mem_messageCandidates hl hp) (fun xs h hxs => ?_) h
    exact runSelections_only [] (fun x h => health_asks _ x.backend h)
      (fun _ _ _ => meets_pure trivial) hxs h

/-- **What `PromptExecute` may send**, and where. -/
theorem promptExecute_only (h : History) :
    Meets A (Only ctx (Reached m A (applyDefault true m.defaultPromptModel req).modelNames))
      (fun _ _ => True) h (m.promptExecute ctx req) := by
  unfold Manager.promptExecute
  cases validateRequest req with
  | some err => exact meets_pure trivial
  | none =>
    refine resolveAndRun_only _ (fun _ _ hl _ hp => mem_filterCandidates hl hp) (fun xs h hxs => ?_) h
    exact runSelections_only [] (fun _ _ => meets_pure trivial) (fun _ _ _ => meets_pure trivial)
      hxs h

/-- **What `Stream` may send**, and where. -/
theorem stream_only (messages : Messages) (h : History) :
    Meets A (Only ctx (Reached m A
        (applyDefault false m.defaultChatModel (applyAudioDefault m messages req)).modelNames))
      (fun _ _ => True) h (m.stream ctx req messages) := by
  refine meets_ite (fun _ => meets_pure trivial) fun _ => ?_
  cases validateRequest req with
  | some err => exact meets_pure trivial
  | none =>
    refine resolveAndRun_only _ (fun _ _ hl _ hp => mem_messageCandidates hl hp) (fun xs h hxs => ?_) h
    refine runSelections_only [] (fun _ _ => meets_pure trivial) (fun x _ h => ?_) hxs h
    refine meets_perform trivial fun r _ => ?_
    cases r with
    | cancelled | closed => exact meets_pure trivial
    | parcel p =>
      dsimp only
      split
      · exact meets_pure trivial
      · exact meets_pure trivial

theorem healthyAmong_from (candidates : List Provider) (h : History) :
    Meets A (Sends ok) (fun _ up => ∀ p ∈ up, p ∈ candidates) h (healthyAmong candidates) := by
  induction candidates generalizing h with
  | nil => exact meets_pure (by simp)
  | cons p ps ih =>
    refine Meets.bind (R := fun _ _ => True) ?_ fun h up _ => ?_
    · exact meets_perform trivial fun _ _ => meets_perform trivial fun _ _ => meets_pure trivial
    refine (ih h).bind fun h rest hrest => meets_pure fun q hq => ?_
    cases up with
    | false => exact List.mem_cons_of_mem p (hrest q hq)
    | true =>
      rcases List.mem_cons.mp hq with rfl | hq
      · exact List.mem_cons_self
      · exact List.mem_cons_of_mem p (hrest q hq)

theorem healthyResolver_picks (health : Bool) (candidates : List Provider) (h : History) :
    Meets A (Sends ok) (fun _ r => ∀ x, r = .ok x → x.provider ∈ candidates) h
      (healthyResolver health candidates) := by
  refine meets_ite (fun _ => ?_) fun _ => randomly_picks candidates h
  refine (healthyAmong_from candidates h).bind fun h up hup => ?_
  refine meets_ite (fun _ => meets_pure nofun) fun _ => ?_
  exact (randomly_picks up h).mono (fun _ _ => id) fun _ r hr x hx => hup _ (hr x hx)

/-- **What `Embed` may send**, and where. -/
theorem embed_only (req : EmbedRequest) (emptyPrompt : Bool) (h : History) :
    Meets A (Only ctx (Reached m A [(applyEmbedDefault m req).modelName]))
      (fun _ _ => True) h (m.embed ctx req emptyPrompt) := by
  refine meets_ite (fun _ => meets_pure trivial) fun _ => ?_
  refine (resolve_meets (R := Reached m A [(applyEmbedDefault m req).modelName])
    (fun h state hA => ?_) h).bind fun h r hr => ?_
  · refine meets_ite (fun _ => meets_pure nofun) fun _ => ?_
    split
    · exact meets_pure nofun
    next candidates hc =>
    refine (healthyResolver_picks _ candidates h).bind fun h r hr => ?_
    cases r with
    | error err => exact meets_pure nofun
    | ok x =>
      refine meets_perform trivial fun r _ => ?_
      cases r with
      | some err => exact meets_pure nofun
      | none =>
        refine meets_pure ?_
        rintro y ⟨⟩
        exact ⟨state, _, hA, mem_filterCandidates hc (hr x rfl)⟩
  · cases r with
    | error err => exact meets_pure trivial
    | ok x =>
      refine (enforce_within m ctx .embed x h).bind fun h e he => ?_
      cases e with
      | some err => exact meets_pure trivial
      | none =>
        refine meets_perform ⟨hr x rfl, he rfl⟩ fun r _ => ?_
        cases r with
        | error _ | ok _ => exact meets_pure trivial

end

/-- **Every prompt handed over is within the envelope**, in every run of the four calls:
whatever is observed, picked, refused or reconciled on the way. -/
theorem envelope_bounds_every_send (m : Manager) (ctx : Ctx) :
    (∀ req messages, (m.chat ctx req messages).Always (fun _ => True) (Sends (Within ctx.bounds))) ∧
    (∀ req, (m.promptExecute ctx req).Always (fun _ => True) (Sends (Within ctx.bounds))) ∧
    (∀ req messages, (m.stream ctx req messages).Always (fun _ => True) (Sends (Within ctx.bounds))) ∧
    (∀ req emptyPrompt, (m.embed ctx req emptyPrompt).Always (fun _ => True)
      (Sends (Within ctx.bounds))) := by
  have within : ∀ (S : Selection → Prop) (h : History) (o : Op),
      Only ctx S h o → Sends (Within ctx.bounds) h o := by
    intro S h o ho
    cases o with
    | send call p b => exact ho.2
    | _ => trivial
  refine ⟨fun req messages => ?_, fun req => ?_, fun req messages => ?_, fun req emptyPrompt => ?_⟩
  · exact ((chat_only req messages []).mono (within _) fun _ _ => id).always
  · exact ((promptExecute_only req []).mono (within _) fun _ _ => id).always
  · exact ((stream_only req messages []).mono (within _) fun _ _ => id).always
  · exact ((embed_only req emptyPrompt []).mono (within _) fun _ _ => id).always

end Contenox.Gateway
