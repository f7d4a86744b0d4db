/-
# Who owns a firing

A claim is a row that carries the request id of the host that made it.  It is taken over only when
it has not been touched for two hours, so at any moment at most one host has a claim that is not
stale; and a row that carries an outcome is neither claimed nor taken over until it is reset.

The statement that records an outcome looks at neither.  A host that was slow, and whose claim
another host has taken over, still writes its outcome into the row that now carries the other's
request id (`slow_host_overwrites`); it may even settle it while the other is running, and a reset
then lets a third host in.  Nor does a host look again before it starts the chain.  `OwnClaim` is
what the code does not ask for: that the row still carries the request id of the claim when the chain
is started and when its outcome is written.  In every run in which that is so, claims are exclusive
and outcomes are owned (`claims_exclusive`).
-/
import Contenox.Events.Dispatch

namespace Contenox.Events

open Lib
open Lib.Contract (Outline)

variable {ι : Type} {w w' : World ι} {key : FiringKey}

/-! ## 1. Rows of firings -/

variable {f : Firing → Firing} {g : Firing} {k : FiringKey}

section Rows

variable {before : Int}

theorem firing_putFiring (key k : FiringKey) (requestID : String) (now : Int) :
    (w.putFiring key requestID now).firing k =
      if k = key ∧ w.firing key = none then some ⟨key, .running, "", requestID, now, now⟩
      else w.firing k := by
  unfold World.putFiring
  split
  · next firings hins =>
    obtain ⟨hfree, hget⟩ := Table.insert_eq_some hins
    rw [World.firing, hget k]
    by_cases hk : k = key
    · rw [if_pos hk, if_pos ⟨hk, hfree⟩]
    · rw [if_neg hk, if_neg fun h => hk h.1]
      rfl
  · next hins =>
    have htaken : w.firing key ≠ none := by
      intro hfree
      unfold Table.insert at hins
      have : (Table.get Firing.key w.firings key).isSome = false := by
        rw [show Table.get Firing.key w.firings key = none from hfree]
        rfl
      rw [if_neg (by simp [this])] at hins
      cases hins
    rw [if_neg fun h => htaken h.2]

/-- Whatever happens to the row, nothing else is touched. -/
theorem putFiring_eq (key : FiringKey) (requestID : String) (now : Int) :
    ∃ firings, w.putFiring key requestID now = { w with firings := firings } := by
  unfold World.putFiring
  split
  · exact ⟨_, rfl⟩
  · exact ⟨w.firings, rfl⟩

theorem firing_update (key k : FiringKey) (hf : ∀ r, (f r).key = r.key) :
    Table.get Firing.key (Table.update Firing.key w.firings key f) k =
      if k = key then (w.firing key).map f else w.firing k :=
  Table.get_update hf

theorem firing_update_self (hg : w.firing key = some g) (hf : ∀ r, (f r).key = r.key) :
    Table.get Firing.key (Table.update Firing.key w.firings key f) key = some (f g) := by
  rw [firing_update key key hf, if_pos rfl, hg]
  rfl

theorem firing_update_ne (hne : k ≠ key) (hf : ∀ r, (f r).key = r.key) :
    Table.get Firing.key (Table.update Firing.key w.firings key f) k = w.firing k :=
  (firing_update key k hf).trans (if_neg hne)

/-- A claim can be taken over when it runs and is stale. -/
theorem reclaimable_iff : w.reclaimable key before = true ↔
    ∃ f, w.firing key = some f ∧ f.status = .running ∧ f.updatedAt < before := by
  unfold World.reclaimable
  cases h : w.firing key with
  | none | some _ => simp

theorem ne_of_reclaimable {f : Firing} (h : w.reclaimable k before = true)
    (hf : w.firing key = some f) (hsettled : f.status ≠ .running) : k ≠ key := by
  rintro rfl
  obtain ⟨g, hg, hrunning, -⟩ := reclaimable_iff.mp h
  rw [hf] at hg
  cases hg
  exact hsettled hrunning

theorem resettable_iff : w.resettable key before = true ↔
    ∃ f, w.firing key = some f ∧ (f.status ≠ .running ∨ f.updatedAt < before) := by
  unfold World.resettable
  cases h : w.firing key with
  | none | some _ => simp

end Rows

/-! ## 2. The contract -/

variable {i : ι} {a : Claim} {now before : Int} {requestID : String}

section Contract

/-- The claim is not stale. -/
def Claim.Live (c : Claim) (w : World ι) : Prop := w.clock ≤ c.since + staleEventFiringClaim

/-- The row still carries the request id of the claim the host has. -/
def StillOwn (i : ι) (w : World ι) : Prop :=
  ∀ c f, w.holds i = some c → w.firing c.key = some f → f.requestID = c.requestID

/-- The condition: a chain is started, and its outcome is written, under a claim that the row still
carries. -/
def OwnClaim : Lib.StepCond ι (World ι) (Op ι) Op.Res
  | i, w, .runChain _ _, _ => StillOwn i w
  | i, w, .finishFiring _ _ _ _, _ => StillOwn i w
  | _, _, _, _ => True

/-- What a host keeps to: it claims with a request id of its own and a time it has read, holding
nothing else; it runs the chain of what it holds and reports an outcome on it. -/
def Orderly (i : ι) (w : World ι) : Op ι → Prop
  | .runChain triggerName ev =>
    w.dead i = false → ∃ c, w.holds i = some c ∧ c.key.triggerName = triggerName ∧ c.key.nid = ev.nid
  | .insertFiring _ requestID now =>
    (i, requestID) ∈ w.minted ∧ now ≤ w.clock ∧ (w.dead i = false → w.holds i = none)
  | .reclaimFiring _ requestID now before =>
    (i, requestID) ∈ w.minted ∧ now ≤ w.clock ∧ before = now - staleEventFiringClaim ∧
      (w.dead i = false → w.holds i = none)
  | .finishFiring key status _ _ =>
    status ≠ .running ∧ (w.dead i = false → ∃ c, w.holds i = some c ∧ c.key = key)
  | .resetFiring _ _ before =>
    before ≤ w.clock - staleEventFiringClaim ∧ (w.dead i = false → w.holds i = none)
  | _ => True

structure ClaimInv (w : World ι) : Prop where
  minted : (w.minted.map Prod.snd).Nodup
  named : ∀ i c, w.holds i = some c → (i, c.requestID) ∈ w.minted
  current : ∀ i c, w.holds i = some c → c.Live w → ∃ f, w.firing c.key = some f ∧
    f.status = .running ∧ f.requestID = c.requestID ∧ f.updatedAt = c.since
  owned : ∀ key f, w.firing key = some f → f.status ≠ .running →
    ⟨key, f.requestID, f.status, f.error⟩ ∈ w.reports ∧
      ∀ i c, w.holds i = some c → c.key = key → c.requestID ≠ f.requestID

/-- Request ids tell hosts apart. -/
theorem ClaimInv.host_eq (h : ClaimInv w) {j : ι} {b : Claim} (ha : w.holds i = some a)
    (hb : w.holds j = some b) (hid : a.requestID = b.requestID) : i = j := by
  have hi := h.named i a ha
  have hj := h.named j b hb
  rw [← hid] at hj
  exact (Prod.mk.inj (List.inj_on_of_nodup_map h.minted hi hj rfl)).1

theorem ClaimInv.mint (h : ClaimInv w) (i : ι) {id : String} (hfresh : id ∉ w.minted.map Prod.snd) :
    ClaimInv { w with minted := (i, id) :: w.minted } where
  minted := List.nodup_cons.mpr ⟨hfresh, h.minted⟩
  named j c hc := List.mem_cons_of_mem _ (h.named j c hc)
  current := h.current
  owned := h.owned

/-- A step on the rows alone: what is settled after it was so before, and a row that a live claim may
be on stays. -/
theorem ClaimInv.rows (h : ClaimInv w) {firings : List Firing}
    (hnew : ∀ k f, World.firing { w with firings := firings } k = some f → f.status ≠ .running →
      w.firing k = some f)
    (hkept : ∀ k f, w.firing k = some f → f.status = .running →
      w.clock ≤ f.updatedAt + staleEventFiringClaim →
      World.firing { w with firings := firings } k = some f) :
    ClaimInv { w with firings := firings } :=
  { h with
    current j c hc hlive := by
      obtain ⟨f, hf, hstatus, hid, hsince⟩ := h.current j c hc hlive
      exact ⟨f, hkept c.key f hf hstatus (hsince ▸ hlive), hstatus, hid, hsince⟩
    owned k f hf hsettled := h.owned k f (hnew k f hf hsettled) hsettled }

/-- A row that comes into being running, known to nobody. -/
theorem ClaimInv.putFiring (h : ClaimInv w) (key : FiringKey) (requestID : String) (now : Int) :
    ClaimInv (w.putFiring key requestID now) := by
  have hrows := fun k => firing_putFiring (w := w) key k requestID now
  obtain ⟨firings, hput⟩ := putFiring_eq key requestID now
  rw [hput] at hrows ⊢
  refine h.rows (fun k f hf hsettled => ?_) fun k f hf _ _ => ?_
  · rw [hrows] at hf
    split at hf
    · cases hf
      exact absurd rfl hsettled
    · exact hf
  · rw [hrows, if_neg]
    · exact hf
    rintro ⟨rfl, hnone⟩
    rw [hnone] at hf
    cases hf

/-- A row that nobody has a live claim on is rewritten, and is running afterwards. -/
theorem ClaimInv.rewrite (h : ClaimInv w) (hkey : ∀ r, (f r).key = r.key)
    (hg : w.firing key = some g) (hrunning : (f g).status = .running)
    (hold : g.status = .running → g.updatedAt + staleEventFiringClaim < w.clock) :
    ClaimInv { w with firings := Table.update Firing.key w.firings key f } := by
  have hrows := fun k => firing_update (w := w) key k hkey
  refine h.rows (fun k f hf hsettled => ?_) fun k f hf hstatus hlive => ?_
  · rw [World.firing, hrows, hg] at hf
    split at hf
    · cases hf
      exact absurd hrunning hsettled
    · exact hf
  · rw [World.firing, hrows, if_neg]
    · exact hf
    rintro rfl
    rw [hg] at hf
    cases hf
    have := hold hstatus
    omega

/-- A stale claim is taken over. -/
theorem ClaimInv.takeOver (h : ClaimInv w) (requestID : String)
    (hstale : w.reclaimable key before = true) (hnow : now ≤ w.clock)
    (hbefore : before = now - staleEventFiringClaim) : ClaimInv (w.takeOver key requestID now) := by
  obtain ⟨g, hg, hrunning, hold⟩ := reclaimable_iff.mp hstale
  exact h.rewrite (fun _ => rfl) hg hrunning fun _ => by omega

theorem ClaimInv.reset (h : ClaimInv w) (updatedAt : Int) (hready : w.resettable key before = true)
    (hbefore : before ≤ w.clock - staleEventFiringClaim) : ClaimInv (w.reset key updatedAt) := by
  obtain ⟨g, hg, hold⟩ := resettable_iff.mp hready
  have hrow := h.rewrite (f := fun f => { f with status := .running, error := "", updatedAt := updatedAt })
    (fun _ => rfl) hg rfl fun hstatus => by
      have := hold.resolve_left (not_not_intro hstatus)
      omega
  exact { hrow with }

variable [DecidableEq ι] {c : Claim}

theorem holds_of_dropped {j : ι} (h : Function.update w.holds i none j = some c) :
    j ≠ i ∧ w.holds j = some c := by
  by_cases hj : j = i
  · subst hj
    rw [Function.update_self] at h
    cases h
  · rw [Function.update_of_ne hj] at h
    exact ⟨hj, h⟩

theorem ClaimInv.drop (h : ClaimInv w) (i : ι) : ClaimInv (w.setClaim i none) :=
  { h with
    named j c hc := h.named j c (holds_of_dropped hc).2
    current j c hc hlive := h.current j c (holds_of_dropped hc).2 hlive
    owned key f hf hsettled := by
      obtain ⟨hreported, hown⟩ := h.owned key f hf hsettled
      exact ⟨hreported, fun j c hc => hown j c (holds_of_dropped hc).2⟩ }

/-- The host is told of the claim its row carries. -/
theorem ClaimInv.claimed (h : ClaimInv w) {i : ι} {requestID : String} {now : Int}
    (hid : (i, requestID) ∈ w.minted)
    (hrow : ∃ f, w.firing key = some f ∧ f.status = .running ∧ f.requestID = requestID ∧
      f.updatedAt = now) : ClaimInv (w.claimed i key requestID now) := by
  have hholds : ∀ j c, (w.claimed i key requestID now).holds j = some c →
      j = i ∧ c = ⟨key, requestID, now⟩ ∨ w.holds j = some c := by
    intro j c hc
    change Function.update w.holds i _ j = some c at hc
    by_cases hj : j = i
    · subst hj
      rw [Function.update_self] at hc
      exact .inl ⟨rfl, (Option.some.inj hc).symm⟩
    · rw [Function.update_of_ne hj] at hc
      exact .inr hc
  refine ⟨h.minted, ?_, ?_, ?_⟩
  · intro j c hc
    rcases hholds j c hc with ⟨rfl, rfl⟩ | hc
    · exact hid
    · exact h.named j c hc
  · intro j c hc hlive
    rcases hholds j c hc with ⟨rfl, rfl⟩ | hc
    · exact hrow
    · exact h.current j c hc hlive
  · intro k f hf hsettled
    have hfk : w.firing k = some f := hf
    refine ⟨(h.owned k f hfk hsettled).1, fun j c hc hkey => ?_⟩
    rcases hholds j c hc with ⟨rfl, rfl⟩ | hc
    · -- the row of the new claim is running
      obtain ⟨g, hg, hrunning, -⟩ := hrow
      change key = k at hkey
      rw [hkey, hfk] at hg
      cases hg
      exact absurd hrunning hsettled
    · exact (h.owned k f hfk hsettled).2 j c hc hkey

/-- An outcome is written by the host whose claim the row carries. -/
theorem ClaimInv.settle (h : ClaimInv w) (hc : w.holds i = some c) (hkey : c.key = key)
    (hown : ∀ f, w.firing key = some f → f.requestID = c.requestID) (status : FiringStatus)
    (err : String) (now : Int) : ClaimInv ((w.settle i key status err now).setClaim i none) := by
  have hholds : ∀ j d, ((w.settle i key status err now).setClaim i none).holds j = some d →
      j ≠ i ∧ w.holds j = some d := fun _ _ => holds_of_dropped
  have hreports : ((w.settle i key status err now).setClaim i none).reports =
      w.reports ++ [⟨key, c.requestID, status, err⟩] := by
    change w.reports ++ _ = _
    rw [hc]
    simp [hkey]
  have hrows : ∀ k, ((w.settle i key status err now).setClaim i none).firing k =
      if k = key then (w.firing key).map fun f =>
        { f with status := status, error := err, updatedAt := now }
      else w.firing k := fun k => firing_update key k fun _ => rfl
  refine ⟨h.minted, ?_, ?_, ?_⟩
  · intro j d hd
    exact h.named j d (hholds j d hd).2
  · intro j d hd hlive
    obtain ⟨hj, hd⟩ := hholds j d hd
    obtain ⟨f, hf, hstatus, hid, hsince⟩ := h.current j d hd hlive
    refine ⟨f, ?_, hstatus, hid, hsince⟩
    rw [hrows, if_neg]
    · exact hf
    intro hsame
    -- two hosts with one request id
    rw [hsame] at hf
    exact hj (h.host_eq hd hc (hid.symm.trans (hown f hf)))
  · intro k f hf hsettled
    rw [hrows] at hf
    rw [hreports]
    split at hf
    · next hk =>
      subst hk
      cases hg : w.firing k with
      | none =>
        rw [hg] at hf
        cases hf
      | some g =>
        rw [hg] at hf
        cases hf
        have hid := hown g hg
        refine ⟨List.mem_append_right _ (by simp [hid]), fun j d hd _ hsame => ?_⟩
        obtain ⟨hj, hd⟩ := hholds j d hd
        exact hj (h.host_eq hd hc (hsame.trans hid))
    · obtain ⟨hreported, hothers⟩ := h.owned k f hf hsettled
      exact ⟨List.mem_append_left _ hreported, fun j d hd => hothers j d (hholds j d hd).2⟩

variable (ι) in
def claimContract : Contract ι (World ι) (Op ι) Op.Res where
  sem := sem
  ok := OwnClaim
  inv := ClaimInv
  guar := Orderly

/-- **Every step keeps the invariant.** -/
theorem claimContract_preserved : (claimContract ι).Preserved := by
  intro i w o r w' hm
  obtain ⟨hinv, horderly, hown, hsem⟩ := hm
  have halive : w.dead i = false := alive_of_sem hsem
  cases effect_of_sem hsem with
  | nothing o r => exact hinv
  | now hle =>
    exact { hinv with current j c hc hlive := hinv.current j c hc (le_trans hle hlive) }
  | mint hfresh => exact hinv.mint i hfresh
  | crash host r => exact { hinv.drop host with }
  | register period r =>
    unfold World.register
    split <;> exact { hinv with }
  | append _ _ _ | listing _ _ _ | cursor _ _ _ _ => exact { hinv with }
  | @claim key requestID now hfree =>
    obtain ⟨hid, -, -⟩ := horderly
    refine (hinv.putFiring key requestID now).claimed ?_ ?_
    · unfold World.putFiring
      split <;> exact hid
    · refine ⟨⟨key, .running, "", requestID, now, now⟩, ?_, rfl, rfl, rfl⟩
      rw [firing_putFiring, if_pos ⟨rfl, hfree⟩]
  | claimUntold key requestID now e => exact hinv.putFiring key requestID now
  | @takeOver key requestID now before hstale =>
    obtain ⟨hid, hnow, hbefore, -⟩ := horderly
    refine (hinv.takeOver requestID hstale hnow hbefore).claimed hid ?_
    obtain ⟨g, hg, hrunning, -⟩ := reclaimable_iff.mp hstale
    exact ⟨_, firing_update_self hg fun _ => rfl, hrunning, rfl, rfl⟩
  | takeOverUntold requestID now e hstale =>
    obtain ⟨-, hnow, hbefore, -⟩ := horderly
    exact hinv.takeOver requestID hstale hnow hbefore
  | settle key status err now r =>
    obtain ⟨c, hc, hkey⟩ := horderly.2 halive
    exact hinv.settle hc hkey (fun f hf => hown c f hc (hkey ▸ hf)) status err now
  | giveUp key status err now e => exact hinv.drop i
  | reset updatedAt r hready => exact hinv.reset updatedAt hready horderly.1

end Contract

/-! ## 3. The hosts keep to it -/

section

variable [DecidableEq ι] {i : ι}

/-- A live host with no claim. -/
def Free (i : ι) (w : World ι) : Prop := w.dead i = false → w.holds i = none

/-- A live host with a claim on the firing. -/
def Holding (i : ι) (key : FiringKey) (w : World ι) : Prop :=
  w.dead i = false → ∃ c, w.holds i = some c ∧ c.key = key

/-- Statements that are not on the firings. -/
def Aside : Op ι → Prop
  | .insertFiring _ _ _ | .reclaimFiring _ _ _ _ | .finishFiring _ _ _ _ | .resetFiring _ _ _ => False
  | _ => True

variable {j : ι} {o : Op ι} {r : o.Res} (hij : i ≠ j ∨ Aside o)

include hij

/-- Nobody touches the claim of another host, but its death ends it. -/
theorem holds_of_sem (h : sem j w o r = some w') :
    w'.dead i = true ∨ w'.dead i = w.dead i ∧ w'.holds i = w.holds i := by
  have hother : ∀ {c : Option Claim}, i ≠ j → (Function.update w.holds j c) i = w.holds i :=
    fun hne => Function.update_of_ne hne _ _
  cases effect_of_sem h with
  | crash host r =>
    by_cases hi : i = host
    · rw [hi]
      exact .inl (Function.update_self _ _ _)
    · exact .inr ⟨Function.update_of_ne hi _ _, Function.update_of_ne hi _ _⟩
  | register period r =>
    unfold World.register
    split <;> exact .inr ⟨rfl, rfl⟩
  | claimUntold key requestID now e =>
    unfold World.putFiring
    split <;> exact .inr ⟨rfl, rfl⟩
  | claim requestID now hfree =>
    rcases hij with hij | haside
    · unfold World.claimed World.setClaim World.putFiring
      split <;> exact .inr ⟨rfl, hother hij⟩
    · exact haside.elim
  | takeOver _ _ _ | settle _ _ _ _ _ | giveUp _ _ _ _ _ =>
    rcases hij with hij | haside
    · exact .inr ⟨rfl, hother hij⟩
    · exact haside.elim
  | nothing | now _ | mint _ | append _ _ _ | listing _ _ _ | cursor _ _ _ _
    | takeOverUntold _ _ _ _ | reset _ _ _ => exact .inr ⟨rfl, rfl⟩

/-- What a live host knows of its claim, it knows after such a step. -/
theorem claim_step {P : Option Claim → Prop} (h : sem j w o r = some w')
    (hP : w.dead i = false → P (w.holds i)) : w'.dead i = false → P (w'.holds i) := by
  intro halive
  rcases holds_of_sem hij h with hdead | ⟨hdead, hholds⟩
  · rw [hdead] at halive
    cases halive
  · rw [hholds]
    exact hP (hdead ▸ halive)

theorem free_step (h : sem j w o r = some w') (hfree : Free i w) : Free i w' :=
  claim_step (P := (· = none)) hij h hfree

theorem holding_step (h : sem j w o r = some w') (hholding : Holding i key w) : Holding i key w' :=
  claim_step (P := fun held => ∃ c, held = some c ∧ c.key = key) hij h hholding

/-- What a host knows when it claims: nothing is held, the id is its own, the time has come. -/
structure Ready (i : ι) (requestID : String) (now : Int) (w : World ι) : Prop where
  free : Free i w
  own : (i, requestID) ∈ w.minted
  past : now ≤ w.clock

omit hij

theorem now_of_sem {t : Int} (h : sem i w .now t = some w') : w'.clock = t := by
  have h := answer_of_sem h
  obtain ⟨-, rfl⟩ := of_guard h
  rfl

/-- What never shrinks. -/
structure Grows (w w' : World ι) : Prop where
  clock : w.clock ≤ w'.clock
  minted : w.minted <:+ w'.minted
  resets : w.resets <:+ w'.resets

omit [DecidableEq ι] in
theorem Grows.refl (w : World ι) : Grows w w := ⟨le_refl _, List.suffix_rfl, List.suffix_rfl⟩

theorem grows_of_sem (h : sem j w o r = some w') : Grows w w' := by
  have hsame := Grows.refl w
  cases effect_of_sem h with
  | now hle => exact { hsame with clock := hle }
  | mint _ => exact { hsame with minted := List.suffix_cons _ _ }
  | reset _ _ _ => exact { hsame with resets := List.suffix_cons _ _ }
  | register period r =>
    unfold World.register
    split <;> exact { hsame with }
  | claimUntold key requestID now e =>
    unfold World.putFiring
    split <;> exact { hsame with }
  | claim requestID now hfree =>
    unfold World.claimed World.setClaim World.putFiring
    split <;> exact { hsame with }
  | nothing | crash _ _ | append _ _ _ | listing _ _ _ | cursor _ _ _ _ | takeOver _ _ _
    | takeOverUntold _ _ _ _ | settle _ _ _ _ _ | giveUp _ _ _ _ _ => exact { hsame with }

theorem ready_step (hij : i ≠ j ∨ Aside o) (h : sem j w o r = some w')
    (hready : Ready i requestID now w) : Ready i requestID now w' :=
  ⟨free_step hij h hready.free, (grows_of_sem h).minted.subset hready.own,
    hready.past.trans (grows_of_sem h).clock⟩

/-- There is a row. -/
def Recorded (key : FiringKey) (w : World ι) : Prop := ∃ f, w.firing key = some f

theorem recorded_step (h : sem j w o r = some w') (hrow : Recorded key w) : Recorded key w' := by
  obtain ⟨f, hf⟩ := hrow
  have hput : ∀ k requestID now, Recorded key (w.putFiring k requestID now) := by
    intro k requestID now
    unfold Recorded
    rw [firing_putFiring]
    split
    · exact ⟨_, rfl⟩
    · exact ⟨f, hf⟩
  have hmap : ∀ (k : FiringKey) (g : Firing → Firing), (∀ r, (g r).key = r.key) →
      Recorded key { w with firings := Table.update Firing.key w.firings k g } := by
    intro k g hg
    by_cases hk : key = k
    · exact ⟨g f, hk ▸ firing_update_self hf hg⟩
    · exact ⟨f, (firing_update_ne hk hg).trans hf⟩
  cases effect_of_sem h with
  | claim requestID now hfree => exact hput _ requestID now
  | claimUntold k requestID now e => exact hput k requestID now
  | register period r =>
    unfold World.register
    split <;> exact ⟨f, hf⟩
  | takeOver _ _ _ | takeOverUntold _ _ _ _ | settle _ _ _ _ _ | reset _ _ _ =>
    exact hmap _ _ fun _ => rfl
  | nothing | now _ | mint _ | crash _ _ | append _ _ _ | listing _ _ _ | cursor _ _ _ _
    | giveUp _ _ _ _ _ => exact ⟨f, hf⟩

/-- Statements other than those that move a cursor or reset a firing. -/
def Plain : Op ι → Prop
  | .setCursor _ _ _ | .resetFiring _ _ _ => False
  | _ => True

/-- Statements on the log. -/
def OnLog : Op ι → Prop
  | .runChain _ _ => False
  | o => Aside o ∧ Plain o

omit [DecidableEq ι] in
theorem listEventsSince_onLog (tx : Texts) (ws : String) (cursor limit : Int) :
    (listEventsSince tx ws cursor limit : EventProg ι _).Issues OnLog :=
  listEventsSince_issues ws cursor limit (fun _ _ => ⟨trivial, trivial⟩)
    (fun _ => ⟨trivial, trivial⟩) fun _ _ _ _ => ⟨trivial, trivial⟩

omit [DecidableEq ι] in
theorem appendEvent_onLog (tx : Texts) (ctxHop : Int) (event : Option Draft) :
    (appendEvent tx ctxHop event : EventProg ι _).Issues OnLog :=
  appendEvent_issues ctxHop event ⟨trivial, trivial⟩ (fun _ => ⟨trivial, trivial⟩)
    (fun _ => ⟨trivial, trivial⟩) (fun _ => ⟨trivial, trivial⟩) fun _ _ => ⟨trivial, trivial⟩

/-- A contract under which hosts may fire.  Where it is `strict`, the insertion of a row fails only if
the row is there. -/
structure Fires (C : Contract ι (World ι) (Op ι) Op.Res) (i : ι) (strict : Prop) : Prop where
  sem : C.sem = sem
  guar : ∀ w o, Plain o → Orderly i w o → C.guar i w o
  told : strict → ∀ w key requestID now e carriedOut,
    C.ok i w (.insertFiring key requestID now) (.failed e carriedOut) → Recorded key w

section Outlines

variable {C : Contract ι (World ι) (Op ι) Op.Res} {strict : Prop} (tx : Texts)
  (hC : Fires C i strict) {requestID : String} {now : Int} {status : FiringStatus}
  {carriedOut : Bool}

include hC

theorem Fires.step (hm : C.Move j w o r w') : Events.sem j w o r = some w' :=
  hC.sem ▸ hm.2.2.2

theorem Fires.stable_free : C.Stable i (Free i) := by
  intro j w o r w' hj hm h
  exact free_step (.inl (Ne.symm hj)) (hC.step hm) h

theorem Fires.stable_holding (key : FiringKey) : C.Stable i (Holding i key) := by
  intro j w o r w' hj hm h
  exact holding_step (.inl (Ne.symm hj)) (hC.step hm) h

theorem Fires.stable_ready (requestID : String) (now : Int) :
    C.Stable i (Ready i requestID now) := by
  intro j w o r w' hj hm h
  exact ready_step (.inl (Ne.symm hj)) (hC.step hm) h

theorem Fires.recorded (key : FiringKey) : C.Persistent (Recorded key) := by
  intro j w o r w' hm h
  exact recorded_step (hC.step hm) h

/-- What is left of a claim that was asked for, and granted or not. -/
structure Begun (i : ι) (strict : Prop) (key : FiringKey) (granted : Bool) (w : World ι) :
    Prop where
  holding : granted = true → Holding i key w
  free : granted = false → Free i w
  recorded : strict → Recorded key w

/-- A host that is told of an error has not been granted anything. -/
def Wrote.granted : Wrote Bool → Bool
  | .done affected => affected
  | .failed _ _ => false

theorem Fires.stable_begun (key : FiringKey) (granted : Bool) :
    C.Stable i (Begun i strict key granted) := by
  intro j w o r' w' hj hm h
  exact ⟨fun hr => hC.stable_holding key j w o r' w' hj hm (h.holding hr),
    fun hr => hC.stable_free j w o r' w' hj hm (h.free hr),
    fun hs => hC.recorded key j w o r' w' hm (h.recorded hs)⟩

omit hC

variable {affected : Bool}

/-- The row after the insertion was answered. -/
theorem insertFiring_answer
    (h : sem i w (.insertFiring key requestID now) (.done affected) = some w') :
    Recorded key w' ∧ (affected = true → Holding i key w') ∧ (affected = false → w' = w) := by
  have h := answer_of_sem h
  cases affected with
  | true =>
    obtain ⟨hfree, rfl⟩ := of_guard h
    refine ⟨⟨_, (firing_putFiring key key requestID now).trans (if_pos ⟨rfl, hfree⟩)⟩, ?_, by simp⟩
    exact fun _ _ => ⟨⟨key, requestID, now⟩, Function.update_self _ _ _, rfl⟩
  | false =>
    obtain ⟨htaken, rfl⟩ := of_guard_not h
    exact ⟨Option.ne_none_iff_exists'.mp htaken, by simp, fun _ => rfl⟩

theorem reclaimFiring_answer
    (h : sem i w (.reclaimFiring key requestID now before) (.done affected) = some w') :
    (affected = true → Holding i key w') ∧ (affected = false → w' = w) := by
  have h := answer_of_sem h
  cases affected with
  | true =>
    obtain ⟨-, rfl⟩ := of_guard h
    exact ⟨fun _ _ => ⟨⟨key, requestID, now⟩, Function.update_self _ _ _, rfl⟩, by simp⟩
  | false =>
    obtain ⟨-, rfl⟩ := of_guard_not h
    exact ⟨by simp, fun _ => rfl⟩

/-- A claim whose answer is an error is not held, whether or not it was made. -/
theorem insertFiring_failed {e : String}
    (h : sem i w (.insertFiring key requestID now) (.failed e carriedOut) = some w')
    (hfree : Free i w) : Free i w' := by
  have h := answer_of_sem h
  cases h
  unfold Free World.putFiring
  split
  · split <;> exact hfree
  · exact hfree

/-- A take-over that failed leaves no claim behind. -/
theorem reclaimFiring_failed {e : String}
    (h : sem i w (.reclaimFiring key requestID now before) (.failed e carriedOut) = some w')
    (hfree : Free i w) : Free i w' := by
  have h := answer_of_sem h
  cases h
  split <;> exact hfree

theorem finishFiring_free {err : String} {r : Wrote Unit}
    (h : sem i w (.finishFiring key status err now) r = some w') : Free i w' := by
  have h := answer_of_sem h
  cases r with
  | done _ | failed _ _ =>
    cases h
    exact fun _ => Function.update_self _ _ _

theorem resetFiring_free {updatedAt : Int} {r : Wrote Bool}
    (h : sem i w (.resetFiring key updatedAt before) r = some w') (hfree : Free i w) :
    Free i w' := by
  cases effect_of_sem h with
  | nothing | listing _ _ _ | reset _ _ _ => exact hfree

/-! The outlines, from the statements up. -/

include hC

/-- A statement beside the firings leaves what a host knows of its claim. -/
theorem Fires.aside {α : Type} {p : EventProg ι α}
    (hp : p.Issues OnLog) : C.Outline i (Free i) p fun _ => Free i := by
  refine Outline.of_issues_keep hC.stable_free ?_ ?_ hp
  · intro w o r w' ho hm hfree
    have haside : Aside o := by
      cases o <;> first | trivial | exact ho.1
    exact free_step (.inr haside) (hC.step hm) hfree
  · intro w o _ _ ho
    cases o <;> first | exact hC.guar w _ ho.2 trivial | exact ho.elim | exact ho.1.elim

theorem reclaimFiring_outline (key : FiringKey) (requestID : String) (now : Int) :
    C.Outline i (fun w => Ready i requestID now w ∧ (strict → Recorded key w))
      (reclaimFiring tx key requestID now) fun r => Begun i strict key (r.toOption.getD false) := by
  refine .learn (fun r => Begun i strict key r.granted) ?_ ?_ ?_ ?_
  · intro w _ h
    exact hC.guar w _ trivial ⟨h.1.own, h.1.past, rfl, h.1.free⟩
  · intro r
    exact hC.stable_begun key _
  · intro w r w' ⟨hready, hrow⟩ hm
    have hs := hC.step hm
    have hrow : strict → Recorded key w' := fun hstrict => recorded_step hs (hrow hstrict)
    cases r with
    | done affected =>
      obtain ⟨hholding, hsame⟩ := reclaimFiring_answer hs
      exact ⟨hholding, fun h => hsame h ▸ hready.free, hrow⟩
    | failed e carriedOut => exact ⟨by simp [Wrote.granted],
        fun _ => reclaimFiring_failed hs hready.free, hrow⟩
  · intro r
    cases r with
    | done _ | failed _ _ => exact .ret fun _ _ h => h

/-- A firing is granted only with a claim on it. -/
theorem beginFiring_outline (key : FiringKey) (requestID : String) :
    C.Outline i (fun w => Free i w ∧ (i, requestID) ∈ w.minted) (beginFiring tx key requestID)
      fun r => Begun i strict key (r.toOption.getD false) := by
  refine .learn (fun now => Ready i requestID now) ?_ (hC.stable_ready requestID) ?_ ?_
  · exact fun w _ _ => hC.guar w _ trivial trivial
  · intro w now w' ⟨hfree, hown⟩ hm
    have hs := hC.step hm
    exact ⟨free_step (o := .now) (.inr trivial) hs hfree, (grows_of_sem hs).minted.subset hown,
      (now_of_sem hs).ge⟩
  intro now
  -- without a row of its own the host still has the time and the id to take over with
  refine .learn (fun r w => Begun i strict key r.granted w ∧
    (r.granted = false → Ready i requestID now w)) ?_ ?_ ?_ ?_
  · intro w _ h
    exact hC.guar w _ trivial ⟨h.own, h.past, h.free⟩
  · intro r j w o r' w' hj hm ⟨hbegun, hready⟩
    exact ⟨hC.stable_begun key _ j w o r' w' hj hm hbegun,
      fun h => hC.stable_ready requestID now j w o r' w' hj hm (hready h)⟩
  · intro w r w' hready hm
    have hs := hC.step hm
    have hready' : ∀ h : Free i w', Ready i requestID now w' := fun h =>
      ⟨h, (grows_of_sem hs).minted.subset hready.own, hready.past.trans (grows_of_sem hs).clock⟩
    cases r with
    | done affected =>
      obtain ⟨hrow, hholding, hsame⟩ := insertFiring_answer hs
      have hfree : affected = false → Free i w' := fun h => hsame h ▸ hready.free
      exact ⟨⟨hholding, hfree, fun _ => hrow⟩, fun h => hready' (hfree h)⟩
    | failed e carriedOut =>
      have hfree := insertFiring_failed hs hready.free
      refine ⟨⟨by simp [Wrote.granted], fun _ => hfree, fun hstrict => ?_⟩, fun _ => hready' hfree⟩
      exact recorded_step hs (hC.told hstrict w key requestID now e carriedOut hm.2.2.1)
  · intro r
    cases r with
    | failed e carriedOut => exact .ret fun _ _ h => h.1
    | done affected =>
      cases affected with
      | true => exact .ret fun _ _ h => h.1
      | false =>
        refine (reclaimFiring_outline tx hC key requestID now).pre fun w _ h => ?_
        exact ⟨h.2 rfl, h.1.recorded⟩

/-- Whatever becomes of the report, the host is done with the claim. -/
theorem finish_outline (key : FiringKey) (hstatus : status ≠ .running) (firingErr : Option String) :
    C.Outline i (Holding i key) (finish tx key status firingErr) fun _ => Free i := by
  refine .keep ?_ (hC.stable_holding key) ?_ fun now => ?_
  · exact fun w _ _ => hC.guar w _ trivial trivial
  · exact fun w r w' hm h => holding_step (o := .now) (.inr trivial) (hC.step hm) h
  refine .learn (fun _ => Free i) ?_ (fun _ => hC.stable_free) ?_ fun r => ?_
  · exact fun w _ h => hC.guar w _ trivial ⟨hstatus, h⟩
  · exact fun w r w' _ hm => finishFiring_free (hC.step hm)
  · cases r with
    | done _ | failed _ _ => exact .done

/-- A trigger is fired under a claim, which is given up again. -/
theorem fire_outline (deps : Deps) (ev : Event) (t : Trigger) :
    C.Outline i (Free i) (fire tx deps ev t) fun _ w =>
      Free i w ∧ (strict → Recorded ⟨deps.workspaceID, t.name, ev.nid⟩ w) := by
  have hrow : C.Persistent fun w => strict → Recorded ⟨deps.workspaceID, t.name, ev.nid⟩ w :=
    (hC.recorded _).imp
  refine .learn (fun requestID w => Free i w ∧ (i, requestID) ∈ w.minted) ?_ ?_ ?_ ?_
  · exact fun w _ _ => hC.guar w _ trivial trivial
  · intro requestID j w o r w' hj hm h
    exact ⟨hC.stable_free j w o r w' hj hm h.1,
      (grows_of_sem (hC.step hm)).minted.subset h.2⟩
  · intro w requestID w' hfree hm
    have hs := hC.step hm
    refine ⟨free_step (o := .newRequestID) (.inr trivial) hs hfree, ?_⟩
    have hs := answer_of_sem hs
    obtain ⟨-, rfl⟩ := of_guard_not hs
    exact List.mem_cons_self
  intro requestID
  change C.Outline i _ (beginFiring tx _ requestID >>= _) _
  refine .bind (fun r => ?_) (beginFiring_outline tx hC _ requestID)
  cases r with
  | error e => exact .ret fun _ _ h => ⟨h.free rfl, h.recorded⟩
  | ok granted =>
    cases granted with
    | false => exact .ret fun _ _ h => ⟨h.free rfl, h.recorded⟩
    | true =>
      refine .pre (fun _ _ h => And.intro (h.holding rfl) h.recorded) ?_
      refine Outline.frame hrow ?_
      refine .ite (fun _ => finish_outline tx hC _ (by simp) _) fun _ => ?_
      refine .keep ?_ (hC.stable_holding _) ?_ fun err => ?_
      · intro w _ hholding
        refine hC.guar w _ trivial fun halive => ?_
        obtain ⟨c, hc, hkey⟩ := hholding halive
        exact ⟨c, hc, by rw [hkey], by rw [hkey]⟩
      · exact fun w r w' hm h =>
          holding_step (o := .runChain t.name ev) (.inr trivial) (hC.step hm) h
      · cases err with
        | none | some _ => exact finish_outline tx hC _ (by simp) _

theorem fireAll_outline (deps : Deps) (ev : Event) (ts : List Trigger) :
    C.Outline i (Free i) (fireAll tx deps ev ts) fun _ w =>
      Free i w ∧ (strict → ∀ t ∈ ts, Recorded ⟨deps.workspaceID, t.name, ev.nid⟩ w) := by
  induction ts with
  | nil => exact .ret fun w _ h => ⟨h, fun _ t ht => absurd ht List.not_mem_nil⟩
  | cons t rest ih =>
    refine .bind (fun _ => ?_) (fire_outline tx hC deps ev t)
    refine (ih.frame (hC.recorded ⟨deps.workspaceID, t.name, ev.nid⟩).imp).post ?_
    intro _ w _ ⟨⟨hfree, hrest⟩, hfirst⟩
    refine ⟨hfree, fun hstrict t' ht => ?_⟩
    rcases List.mem_cons.mp ht with rfl | ht
    · exact hfirst hstrict
    · exact hrest hstrict t' ht

theorem handle_outline (deps : Deps) (ev : Event) :
    C.Outline i (Free i) (handle tx deps ev) fun _ w => Free i w ∧
      (strict → ∀ t ∈ deps.matching ev.type, Recorded ⟨deps.workspaceID, t.name, ev.nid⟩ w) :=
  fireAll_outline tx hC deps ev _

omit [DecidableEq ι] hC in
/-- Deps without a core do nothing. -/
theorem outline_withCore {deps : Deps} {p : Deps → EventProg ι Unit}
    (h : ∀ core, newFiringCore deps = .ok core → C.Outline i (Free i) (p core) fun _ => Free i) :
    C.Outline i (Free i) (withCore deps p) fun _ => Free i := by
  unfold withCore
  split
  · exact .done
  · exact h _ ‹_›

theorem handleEvent_outline (deps : Deps) (events : List Event) :
    C.Outline i (Free i) (handleEvent tx deps events) fun _ => Free i := by
  induction events with
  | nil => exact .done
  | cons ev rest ih =>
    unfold handleEvent
    split
    · exact ih
    · refine .bind (fun _ => ?_) (handle_outline tx hC deps ev)
      exact ih.pre fun _ _ h => h.1

end Outlines

/-! The programs as a whole, under the contract of this file. -/

theorem claimContract_fires (i : ι) : Fires (claimContract ι) i False where
  sem := rfl
  guar _ _ _ h := h
  told h := h.elim

section Whole

variable (tx : Texts) (deps : Deps)

/-- A host without a claim has none afterwards. -/
abbrev EndsFree (i : ι) {α : Type} (p : EventProg ι α) : Prop :=
  (claimContract ι).Outline i (Free i) p fun _ => Free i

/-- A statement that is not on the firings and starts no chain. -/
theorem outline_aside (o : Op ι) (ho : Aside o) (hguar : ∀ w, Orderly i w o) {α : Type} {k : o.Res → EventProg ι α}
    {Q : α → World ι → Prop} (hk : ∀ r, (claimContract ι).Outline i (Free i) (k r) Q) :
    (claimContract ι).Outline i (Free i) (issue o >>= k) Q := by
  refine .keep (fun w _ _ => hguar w) (claimContract_fires i).stable_free ?_ hk
  · exact fun w r w' hm h => free_step (.inr ho) hm.2.2.2 h

theorem handlePage_outline (events : List Event) (cursor : Int) :
    EndsFree i (handlePage tx deps events cursor) := by
  induction events generalizing cursor with
  | nil => exact .done
  | cons ev rest ih =>
    refine outline_aside .ctxDone trivial (fun _ => trivial) fun (done : Bool) => ?_
    refine .ite (fun _ => .done) fun _ => ?_
    refine .bind (fun _ => ?_) (handle_outline tx (claimContract_fires i) deps ev)
    refine .pre (fun _ _ h => h.1) ?_
    exact outline_aside (.setCursor _ _ _) trivial (fun _ => trivial) fun _ => ih ev.nid

theorem drain_outline (pages : Nat) (cursor : Int) : EndsFree i (drain tx deps pages cursor) := by
  induction pages generalizing cursor with
  | zero => exact .done
  | succ pages ih =>
    refine outline_aside .ctxDone trivial (fun _ => trivial) fun (done : Bool) => ?_
    refine .ite (fun _ => .done) fun _ => ?_
    refine .bind (fun r => ?_) ((claimContract_fires i).aside
      (listEventsSince_onLog tx deps.workspaceID cursor deps.batch))
    cases r with
    | error e => exact .done
    | ok events =>
      refine .ite (fun _ => .done) fun _ => ?_
      refine .bind (fun page => ?_) (handlePage_outline tx deps events cursor)
      obtain ⟨cursor', cut⟩ := page
      exact .ite (fun _ => .done) fun _ => ih cursor'

theorem runLoop_outline (drains : List Nat) (cursor : Int) :
    EndsFree i (runLoop tx deps drains cursor) := by
  induction drains generalizing cursor with
  | nil => exact .done
  | cons pages rest ih =>
    refine outline_aside .ctxDone trivial (fun _ => trivial) fun (done : Bool) => ?_
    exact .ite (fun _ => .done) fun _ => .bind ih (drain_outline tx deps pages cursor)

theorem run_outline (backlog : Nat) (drains : List Nat) :
    EndsFree i (run tx deps backlog drains) := by
  refine outline_aside (.getCursor _ _) trivial (fun _ => trivial) fun r => ?_
  cases r with
  | error e => exact .done
  | ok cursor =>
    exact .bind (fun cursor' => runLoop_outline tx deps drains cursor')
      (drain_outline tx deps backlog cursor)

theorem resetFiring_outline (key : FiringKey) : EndsFree i (resetFiring tx key) := by
  refine .learn (fun (now : Int) w => Free i w ∧ now ≤ w.clock) ?_ ?_ ?_ ?_
  · exact fun w _ _ => trivial
  · intro now j w o r w' hj hm h
    exact ⟨(claimContract_fires i).stable_free j w o r w' hj hm h.1,
      h.2.trans (grows_of_sem hm.2.2.2).clock⟩
  · intro w now w' hfree hm
    have hs : sem i w .now now = some w' := hm.2.2.2
    exact ⟨free_step (o := .now) (.inr trivial) hs hfree, (now_of_sem hs).ge⟩
  intro (now : Int)
  refine .learn (fun _ => Free i) ?_ (fun _ => (claimContract_fires i).stable_free) ?_ fun r => ?_
  · intro w _ h
    have hbefore : now - staleEventFiringClaim ≤ w.clock - staleEventFiringClaim :=
      Int.sub_le_sub_right h.2 _
    exact ⟨hbefore, h.1⟩
  · exact fun w r w' h hm => resetFiring_free (hm.2.2.2) h.1
  · cases r with
    | done _ | failed _ _ => exact .done

theorem action_outline (a : Action ι) : EndsFree i (a.prog tx) := by
  cases a with
  | dispatch deps backlog drains =>
    exact outline_withCore fun core _ => run_outline tx core backlog drains
  | handleEvent deps events =>
    exact outline_withCore fun core _ => handleEvent_outline tx (claimContract_fires i) core events
  | append ctxHop event =>
    exact .bind (fun _ => .done) ((claimContract_fires i).aside (appendEvent_onLog tx ctxHop event))
  | reset key =>
    exact .bind (fun _ => .done) (resetFiring_outline tx key)
  | crash host => exact outline_aside (.crash host) trivial (fun _ => trivial) fun _ => .done

theorem process_outline (actions : List (Action ι)) : EndsFree i (process tx actions) := by
  induction actions with
  | nil => exact .done
  | cons a rest ih => exact .bind (fun _ => ih) (action_outline tx a)

end Whole

end

/-! ## 4. Claims are exclusive -/

section

variable {f : Firing} {m n : Nat}

/-- Nothing has been claimed yet. -/
structure Unfired (w : World ι) : Prop where
  minted : w.minted = []
  firings : w.firings = []
  holds : ∀ i, w.holds i = none

theorem Unfired.inv (h : Unfired w) : ClaimInv w where
  minted := by
    rw [h.minted]
    exact List.nodup_nil
  named i c hc := by
    rw [h.holds i] at hc
    cases hc
  current i c hc := by
    rw [h.holds i] at hc
    cases hc
  owned key f hf := by
    unfold World.firing Table.get at hf
    rw [h.firings] at hf
    cases hf

/-- At most one host has a claim that is not stale. -/
def OneLiveClaim (w : World ι) : Prop :=
  ∀ i j a b, w.holds i = some a → w.holds j = some b → a.key = b.key → a.Live w → b.Live w → i = j

/-- An outcome in a row was reported under the request id the row carries. -/
def OutcomesOwned (w : World ι) : Prop :=
  ∀ key f, w.firing key = some f → f.status ≠ .running →
    ⟨key, f.requestID, f.status, f.error⟩ ∈ w.reports

/-- Of two claims on a firing one at most is live. -/
theorem ClaimInv.oneLiveClaim (h : ClaimInv w) : OneLiveClaim w := by
  intro i j a b ha hb hkey hlive hlive'
  obtain ⟨f, hf, -, hid, -⟩ := h.current i a ha hlive
  obtain ⟨g, hg, -, hid', -⟩ := h.current j b hb hlive'
  rw [hkey, hg] at hf
  cases hf
  exact h.host_eq ha hb (hid.symm.trans hid')

/-- A settled firing, since it was settled: the row is as it was, nobody has been given a claim on it
and it has not been reset. -/
structure AtRest (key : FiringKey) (f : Firing) (begun resets : Nat) (w : World ι) : Prop where
  row : w.firing key = some f
  begun : w.begun.count key = begun
  resets : w.resets.count key = resets

/-- A step that touches neither the row nor the counts. -/
theorem AtRest.same (h : AtRest key f m n w) (row : w'.firing key = w.firing key)
    (begun : w'.begun.count key = w.begun.count key)
    (resets : w'.resets.count key = w.resets.count key) : AtRest key f m n w' :=
  ⟨row.trans h.row, begun.trans h.begun, resets.trans h.resets⟩

theorem AtRest.putFiring (h : AtRest key f m n w) (k : FiringKey) (requestID : String) (now : Int) :
    AtRest key f m n (w.putFiring k requestID now) := by
  have hrow : (w.putFiring k requestID now).firing key = w.firing key := by
    rw [firing_putFiring, if_neg]
    rintro ⟨rfl, hnone⟩
    rw [h.row] at hnone
    cases hnone
  refine h.same hrow ?_ ?_
  · unfold World.putFiring
    split <;> rfl
  · unfold World.putFiring
    split <;> rfl

theorem AtRest.takeOver (h : AtRest key f m n w) (hne : k ≠ key) (requestID : String) (now : Int) :
    AtRest key f m n (w.takeOver k requestID now) :=
  h.same (firing_update_ne hne.symm fun _ => rfl) rfl rfl

variable [DecidableEq ι]

theorem AtRest.claimed (h : AtRest key f m n w) (hne : k ≠ key) (i : ι) (requestID : String)
    (now : Int) : AtRest key f m n (w.claimed i k requestID now) :=
  h.same rfl (List.count_cons_of_ne hne) rfl

/-- Nobody runs a settled firing or changes its row, but it may be reset. -/
theorem atRest_persistent (hsettled : f.status ≠ .running) (m n : Nat) :
    (claimContract ι).Persistent fun w => AtRest key f m n w ∨ n < w.resets.count key := by
  intro i w o r w' hm hrest
  obtain ⟨hinv, horderly, hown, hsem⟩ := hm
  have halive : w.dead i = false := alive_of_sem hsem
  rcases hrest with hrest | hreset
  · cases effect_of_sem hsem with
    | nothing | now _ | mint _ | crash _ _ | append _ _ _ | listing _ _ _ | cursor _ _ _ _
      | giveUp _ _ _ _ _ => exact .inl (hrest.same rfl rfl rfl)
    | register period r =>
      unfold World.register
      split <;> exact .inl (hrest.same rfl rfl rfl)
    | @claim k requestID now hfree =>
      refine .inl ((hrest.putFiring k requestID now).claimed ?_ i requestID now)
      rintro rfl
      rw [hrest.row] at hfree
      cases hfree
    | claimUntold k requestID now e => exact .inl (hrest.putFiring k requestID now)
    | @takeOver k requestID now before hstale =>
      have hne : k ≠ key := ne_of_reclaimable hstale hrest.row hsettled
      exact .inl ((hrest.takeOver hne requestID now).claimed hne i requestID now)
    | @takeOverUntold k requestID now before e hstale =>
      have hne : k ≠ key := ne_of_reclaimable hstale hrest.row hsettled
      exact .inl (hrest.takeOver hne requestID now)
    | settle k status err now r =>
      -- the outcome would be another host's, and the row carries the one of the host that wrote it
      obtain ⟨c, hc, hkey⟩ := horderly.2 halive
      have hne : key ≠ k := by
        rintro rfl
        exact (hinv.owned key f hrest.row hsettled).2 i c hc hkey
          (hown c f hc (hkey ▸ hrest.row)).symm
      exact .inl (hrest.same (firing_update_ne hne fun _ => rfl) rfl rfl)
    | @reset k updatedAt before r hready =>
      by_cases hk : k = key
      · subst hk
        refine .inr ?_
        change n < (k :: w.resets).count k
        rw [List.count_cons_self, hrest.resets]
        exact Nat.lt_succ_self n
      · exact .inl (hrest.same (firing_update_ne (Ne.symm hk) fun _ => rfl) rfl
          (List.count_cons_of_ne hk))
  · exact .inr (hreset.trans_le ((grows_of_sem hsem).resets.sublist.count_le key))

/-- A host that has a claim the row no longer carries does nothing to the row. -/
theorem row_of_taken_over {o : Op ι} {r : o.Res} (horderly : Orderly i w o)
    (hown : OwnClaim i w o r) (hsem : sem i w o r = some w') (ha : w.holds i = some a)
    (hf : w.firing a.key = some f) (hid : f.requestID ≠ a.requestID) :
    w'.firing a.key = some f := by
  have halive : w.dead i = false := alive_of_sem hsem
  have hbusy : ¬ w.holds i = none := by
    rw [ha]
    exact Option.some_ne_none a
  cases effect_of_sem hsem with
  | nothing | now _ | mint _ | crash _ _ | append _ _ _ | listing _ _ _ | cursor _ _ _ _
    | giveUp _ _ _ _ _ => exact hf
  | register period r =>
    unfold World.register
    split <;> exact hf
  | claim _ _ _ | claimUntold _ _ _ _ => exact absurd (horderly.2.2 halive) hbusy
  | takeOver _ _ _ | takeOverUntold _ _ _ _ => exact absurd (horderly.2.2.2 halive) hbusy
  | settle k status err now r => exact absurd (hown a f ha hf) hid
  | reset updatedAt r hready => exact absurd (horderly.2 halive) hbusy

/-- **Claims are exclusive and outcomes are owned**, in every run in which no host starts a chain or
reports an outcome under a claim that has been taken over: at most one host has a live claim on a
firing; the outcome of a row is the one reported under its request id; a settled firing is not changed,
claimed or run until it is reset; and a host whose claim was taken over leaves the row alone. -/
theorem claims_exclusive (tx : Texts) (actions : ι → List (Action ι)) (hw : Unfired w)
    {c : Config ι (World ι) (Op ι) Op.Res Unit}
    (hr : Reach sem OwnClaim ⟨w, fun i => process tx (actions i)⟩ c) :
    OneLiveClaim c.store ∧ OutcomesOwned c.store ∧
    (∀ key f, c.store.firing key = some f → f.status ≠ .running → ∀ c', Reach sem OwnClaim c c' →
      c'.store.resets.count key = c.store.resets.count key →
        c'.store.firing key = some f ∧ c'.store.begun.count key = c.store.begun.count key ∧
        ∀ i t ev k r, c'.pool i = .op (.runChain t ev) k → OwnClaim i c'.store (.runChain t ev) r →
          c'.store.dead i = false → ∃ a, c'.store.holds i = some a ∧ a.key ≠ key ∧
            a.key.triggerName = t ∧ a.key.nid = ev.nid) ∧
    (∀ i a f, c.store.holds i = some a → c.store.firing a.key = some f →
      f.requestID ≠ a.requestID → ∀ o k r w', c.pool i = .op o k → OwnClaim i c.store o r →
        sem i c.store o r = some w' → w'.firing a.key = some f) := by
  have hfree : ∀ i, Free i w := fun i _ => hw.holds i
  have hstable : ∀ i, (claimContract ι).Stable i (Free i) :=
    fun i => (claimContract_fires i).stable_free
  have hpool : ∀ i, (claimContract ι).Outline i (Free i) (process tx (actions i)) fun _ => Free i :=
    fun i => process_outline tx (actions i)
  -- the rules for runs, at this pool
  have hinv : ∀ {d}, Reach sem OwnClaim ⟨w, fun i => process tx (actions i)⟩ d →
      ClaimInv d.store := fun hd =>
    (Contract.reach_outline claimContract_preserved hw.inv hstable hfree hpool hd).1
  have hguar : ∀ {d}, Reach sem OwnClaim ⟨w, fun i => process tx (actions i)⟩ d →
      ∀ {i o k}, d.pool i = .op o k → Orderly i d.store o := fun hd _ _ _ hp =>
    Contract.reach_guar claimContract_preserved hw.inv hstable hfree hpool hd hp
  have hI := hinv hr
  refine ⟨hI.oneLiveClaim, fun key f hf hs => (hI.owned key f hf hs).1, ?_, ?_⟩
  · intro key f hf hsettled c' hr' hresets
    have hrest : AtRest key f (c.store.begun.count key) (c.store.resets.count key) c'.store := by
      have hpersist := Contract.reach_persistent claimContract_preserved hw.inv hstable hfree hpool
        (atRest_persistent hsettled (c.store.begun.count key) (c.store.resets.count key)) hr hr'
        (.inl ⟨hf, rfl, rfl⟩)
      rcases hpersist with hrest | hreset
      · exact hrest
      · exact absurd hresets hreset.ne'
    refine ⟨hrest.row, hrest.begun, fun i t ev k r hp hown halive => ?_⟩
    have hreach := hr.trans hr'
    obtain ⟨a, ha, htrigger, hnid⟩ := hguar hreach hp halive
    refine ⟨a, ha, fun hkey => ?_, htrigger, hnid⟩
    exact ((hinv hreach).owned key f hrest.row hsettled).2 i a ha hkey
      (hown a f ha (hkey ▸ hrest.row)).symm
  · intro i a f ha hf hid o k r w' hp hown hsem
    exact row_of_taken_over (hguar hr hp) hown hsem ha hf hid

end

/-- One event and one trigger that listens for it. -/
def orderPlaced : Event := ⟨1, "ws", "order.placed", "", "", 0, "\x7b\x7d", 0⟩

def shipOrder : FiringKey := ⟨"ws", "ship", 1⟩

/-- The defaults for the rest. -/
def shipDeps : Deps := ⟨"ws", [⟨"ship", "order.placed"⟩], "", 0, 0⟩

def plainTexts : Texts := ⟨fun _ => "19700101", id⟩

/-- Nothing claimed, at time zero. -/
def unfired : World Bool where
  clock := 0
  minted := []
  lastNID := 1
  partitions := ["19700101"]
  rows := [("19700101", orderPlaced)]
  cursors := []
  firings := []
  listing _ := none
  holds _ := none
  begun := []
  resets := []
  reports := []
  dead _ := false

theorem unfired_unfired : Unfired unfired := ⟨rfl, rfl, fun _ => rfl⟩

/-- Two hosts that both fire the triggers of the event. -/
def bothFire (_ : Bool) : List (Action Bool) := [.handleEvent shipDeps [orderPlaced]]

/-- Three hours after zero. -/
def threeHours : Int := 10800000000000

/-- The first host claims and is slow; after three hours the second takes the claim over and runs the
chain; the first then reports its error, into the row that carries the id of the second. -/
theorem slow_host_overwrites : ∃ c,
    Reach sem anyStep ⟨unfired, fun i => process plainTexts (bothFire i)⟩ c ∧
    c.store.firing shipOrder = some ⟨shipOrder, .error, "timeout", "b", 0, threeHours⟩ ∧
    c.store.holds false = some ⟨shipOrder, "b", threeHours⟩ ∧
    c.store.reports = [⟨shipOrder, "a", .error, "timeout"⟩] := by
  have run := (Reach.start : Reach sem anyStep ⟨unfired, fun i => process plainTexts (bothFire i)⟩ _)
    |>.step true .newRequestID "a"
    |>.step true .now (0 : Int)
    |>.step true (.insertFiring shipOrder "a" 0) (.done true)
    |>.step false .newRequestID "b"
    |>.step false .now threeHours
    |>.step false (.insertFiring shipOrder "b" threeHours) (.done false)
    |>.step false (.reclaimFiring shipOrder "b" threeHours (threeHours - staleEventFiringClaim))
      (.done true)
    |>.step true (.runChain "ship" orderPlaced) (some "timeout")
    |>.step true .now threeHours
    |>.step true (.finishFiring shipOrder .error "timeout" threeHours) (.done ())
  exact ⟨_, run, rfl, rfl, rfl⟩

/-- The second host takes the claim over and settles the firing, and the first is still to wake up:
it has a claim that the row does not carry. -/
theorem claims_exclusive_taken_over : ∃ c,
    Reach sem OwnClaim ⟨unfired, fun i => process plainTexts (bothFire i)⟩ c ∧
    c.store.firing shipOrder = some ⟨shipOrder, .ok, "", "b", 0, threeHours⟩ ∧
    c.store.holds true = some ⟨shipOrder, "a", 0⟩ ∧
    OneLiveClaim c.store ∧ OutcomesOwned c.store := by
  have run := (Reach.start : Reach sem OwnClaim ⟨unfired, fun i => process plainTexts (bothFire i)⟩ _)
    |>.step true .newRequestID "a"
    |>.step true .now (0 : Int)
    |>.step true (.insertFiring shipOrder "a" 0) (.done true)
    |>.step false .newRequestID "b"
    |>.step false .now threeHours
    |>.step false (.insertFiring shipOrder "b" threeHours) (.done false)
    |>.step false (.reclaimFiring shipOrder "b" threeHours (threeHours - staleEventFiringClaim))
      (.done true)
    |>.step false (.runChain "ship" orderPlaced) none rfl
      (fun c f hc hf => by cases hc; cases hf; rfl)
    |>.step false .now threeHours
    |>.step false (.finishFiring shipOrder .ok "" threeHours) (.done ()) rfl
      (fun c f hc hf => by cases hc; cases hf; rfl)
  obtain ⟨hone, howned, -⟩ := claims_exclusive plainTexts bothFire unfired_unfired run
  exact ⟨_, run, rfl, rfl, hone, howned⟩

end Contenox.Events
