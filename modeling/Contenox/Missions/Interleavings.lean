/-
# Missions under any interleaving

The conditional writers never lose each other's work: each builds on the record it read, and its
write goes through only if that record is still there.  So along a run a record only ADVANCES: a
terminal status stays, a bound id stays, the plan changes only with its revision, and the revision
only grows.

`create` and `update` write a whole record without looking.  A creation under a key in use, or an
update with a copy that another writer has left behind, takes back whatever happened in between
(`update_reopens`).  And the revision is a machine integer: after the largest comes the smallest.
`Careful` is the condition under which none of this happens, and in every run whose steps meet it
nothing that was acknowledged is lost (`acknowledged_not_lost`).
-/
import Contenox.Missions.Service
import Mathlib.Data.List.Nodup

namespace Contenox.Missions

open Lib
open Lib.Contract (Outline persistent_const)
open Lib.Prog (issues_pure issues_op issues_perform issues_ite)
open Lib.GoStrings

/-! ## 1. Records advance -/

/-- What may happen to a record. -/
structure Advances (m m' : Mission) : Prop where
  status : isTerminalStatus m.status = true →
    m'.status = m.status ∧ m'.statusReason = m.statusReason
  session : m.sessionID ≠ "" → m'.sessionID = m.sessionID
  instance_ : m.instanceID ≠ "" → m'.instanceID = m.instanceID
  revision : m.plan.revision ≤ m'.plan.revision
  /-- the plan changes with its revision only -/
  plan : m'.plan.revision = m.plan.revision → m'.plan = m.plan

variable {m : Mission}

namespace Advances

theorem refl (m : Mission) : Advances m m where
  status _ := ⟨rfl, rfl⟩
  session _ := rfl
  instance_ _ := rfl
  revision := Int64.le_refl _
  plan _ := rfl

theorem trans {m' m'' : Mission} (h : Advances m m') (h' : Advances m' m'') : Advances m m'' where
  status hterm := by
    obtain ⟨hs, hr⟩ := h.status hterm
    obtain ⟨hs', hr'⟩ := h'.status (hs ▸ hterm)
    exact ⟨hs'.trans hs, hr'.trans hr⟩
  session hne := by
    have hs := h.session hne
    exact (h'.session (hs ▸ hne)).trans hs
  instance_ hne := by
    have hs := h.instance_ hne
    exact (h'.instance_ (hs ▸ hne)).trans hs
  revision := Int64.le_trans h.revision h'.revision
  plan heq := by
    -- the revision in between is squeezed
    have hmid : m'.plan.revision = m.plan.revision :=
      Int64.le_antisymm (heq ▸ h'.revision) h.revision
    rw [h'.plan (heq.trans hmid.symm), h.plan hmid]

end Advances

/-- The record of a mission, or one it has advanced to, is stored. -/
def Holds {ι : Type} (id : String) (m : Mission) (w : World ι) : Prop :=
  ∃ cur, Table.get Mission.id w.rows id = some cur ∧ Advances m cur

/-! ## 2. The contract -/

/-- What an update must leave as it is stored. -/
structure Keeps (cur m : Mission) : Prop where
  status : isTerminalStatus cur.status = true →
    m.status = cur.status ∧ m.statusReason = cur.statusReason
  session : cur.sessionID ≠ "" → m.sessionID = cur.sessionID
  instance_ : cur.instanceID ≠ "" → m.instanceID = cur.instanceID
  plan : m.plan = cur.plan

/-- A write that keeps what it read advances the mission. -/
theorem Keeps.advances {cur : Mission} (h : Keeps cur m) : Advances cur m where
  status := h.status
  session := h.session
  instance_ := h.instance_
  revision := Int64.le_of_eq (congrArg Plan.revision h.plan).symm
  plan _ := h.plan

section Contract

variable {ι α : Type} {i : ι} {w w' : World ι} {o : Op} {id : String} {F : World ι → Prop}
  {Q : α → World ι → Prop}

/-- A plan is written on a revision that has one after it. -/
def CanGrow (expected value : Mission) : Prop :=
  value.plan.revision ≠ expected.plan.revision → expected.plan.revision ≠ Int64.maxValue

/-- The condition on the two writers that do not look: a creation finds its key free, and an update
leaves what is stored at that moment; and on a plan: its revision is not the last one there is. -/
def Careful : Lib.StepCond ι (World ι) Op Op.Res
  | _, w, .setKV m, _ => Table.get Mission.id w.rows m.id = none
  | _, w, .updateKV m, _ => ∀ cur, Table.get Mission.id w.rows m.id = some cur → Keeps cur m
  | _, _, .updateKVIfUnchanged expected value, _ => CanGrow expected value
  | _, _, _, _ => True

/-- A conditional write is one the record it was built on may advance to. -/
def Allowed : Op → Prop
  | .updateKVIfUnchanged expected value =>
    value.id = expected.id ∧ (CanGrow expected value → Advances expected value)
  | _ => True

/-- Every plan write is still behind the stored revision, and no revision was written twice. -/
structure Inv (w : World ι) : Prop where
  behind : ∀ i id n, (i, id, n) ∈ w.plans →
    ∃ cur, Table.get Mission.id w.rows id = some cur ∧ n ≤ cur.plan.revision
  once : (w.plans.map Prod.snd).Nodup

variable (ι) in
def contract : Contract ι (World ι) Op Op.Res where
  sem := sem
  ok := Careful
  inv := Inv
  guar := fun _ _ o => Allowed o

/-- What a step can do to the world. -/
inductive Effect (i : ι) (w : World ι) : World ι → Prop
  | none : Effect i w w
  | insert (m : Mission) (rows : List Mission) : Table.insert Mission.id w.rows m = some rows →
      Effect i w { w with rows := rows }
  | overwrite (cur m : Mission) : Table.get Mission.id w.rows m.id = some cur → Keeps cur m →
      Effect i w (w.overwrite m)
  | swap (cur m : Mission) : Table.get Mission.id w.rows m.id = some cur → Advances cur m →
      Effect i w (w.swap i cur m)

/-- A write lands or changes nothing. -/
theorem write_cases {w₁ : World ι} {applies : Bool} {r : Wrote}
    (h : w.write w₁ applies r = some w') : w' = w ∨ applies = true ∧ w' = w₁ := by
  cases r with
  | done =>
    cases applies with
    | false => cases h
    | true => exact .inr ⟨rfl, (Option.some.inj h).symm⟩
  | noRow =>
    cases applies with
    | false => exact .inl (Option.some.inj h).symm
    | true => cases h
  | failed carriedOut =>
    cases applies with
    | false => exact .inl (Option.some.inj h).symm
    | true =>
      cases carriedOut with
      | false => exact .inl (Option.some.inj h).symm
      | true => exact .inr ⟨rfl, (Option.some.inj h).symm⟩

/-- A step writes one row, or nothing. -/
theorem sem_cases {r : o.Res} (h : sem i w o r = some w') : w' = w ∨
    (∃ m, o = .setKV m ∧ w' = w.upsert m) ∨
    (∃ m cur, o = .updateKV m ∧ Table.get Mission.id w.rows m.id = some cur ∧
      w' = w.overwrite m) ∨
    ∃ cur m, o = .updateKVIfUnchanged cur m ∧ Table.get Mission.id w.rows m.id = some cur ∧
      w' = w.swap i cur m := by
  cases o with
  | now | listHITLApprovalsForMission id => exact .inl (Option.some.inj h).symm
  | mint => exact .inl (of_guard_not h).2.symm
  | block => exact r.elim
  | getKVRaw id =>
    cases r with
    | ok m => exact .inl (of_guard h).2.symm
    | error e => cases e <;> simp_all [sem]
  | listKVPrefix cursor limit =>
    cases r with
    | ok _ | error _ => simp_all [sem]
  | setKV m =>
    rcases write_cases h with rfl | ⟨-, rfl⟩
    · exact .inl rfl
    · exact .inr (.inl ⟨m, rfl, rfl⟩)
  | updateKV m =>
    rcases write_cases h with rfl | ⟨happlies, rfl⟩
    · exact .inl rfl
    · obtain ⟨cur, hcur⟩ := Option.isSome_iff_exists.mp happlies
      exact .inr (.inr (.inl ⟨m, cur, rfl, hcur, rfl⟩))
  | updateKVIfUnchanged expected value =>
    rcases write_cases h with rfl | ⟨happlies, rfl⟩
    · exact .inl rfl
    · exact .inr (.inr (.inr ⟨expected, value, rfl, of_decide_eq_true happlies, rfl⟩))

theorem effect_of_move {r : o.Res} (h : (contract ι).Move i w o r w') : Effect i w w' := by
  obtain ⟨-, hallowed, hcareful, hsem⟩ := h
  obtain rfl | ⟨m, rfl, rfl⟩ | ⟨m, cur, rfl, hcur, rfl⟩ | ⟨cur, m, rfl, hcur, rfl⟩ := sem_cases hsem
  · exact .none
  · have hfree : Table.get Mission.id w.rows m.id = none := hcareful
    have hins : Table.insert Mission.id w.rows m = some (w.rows ++ [m]) := by
      rw [Table.insert, hfree]
      rfl
    rw [World.upsert, hins]
    exact .insert m _ hins
  · exact .overwrite cur m hcur (hcareful cur hcur)
  · exact .swap cur m hcur (hallowed.2 hcareful)

/-! ## 3. What a step keeps -/

theorem get_overwrite {cur : Mission} (hcur : Table.get Mission.id w.rows m.id = some cur)
    (id : String) : Table.get Mission.id (w.overwrite m).rows id =
      if id = m.id then some m else Table.get Mission.id w.rows id := by
  rw [World.overwrite, Table.get_update, hcur, Option.map_some, Table.key_of_get hcur]
  exact fun _ => rfl

theorem rows_swap (cur m : Mission) : (w.swap i cur m).rows = (w.overwrite m).rows := by
  unfold World.swap
  split <;> rfl

/-- A row that a record was written over, or one that was not. -/
theorem advance_of_overwrite {cur : Mission} (hcur : Table.get Mission.id w.rows m.id = some cur)
    (hadv : Advances cur m) {m₀ : Mission} (hget : Table.get Mission.id w.rows id = some m₀) :
    Holds id m₀ (w.overwrite m) := by
  unfold Holds
  rw [get_overwrite hcur]
  split
  · rename_i hid
    rw [hid, hcur] at hget
    cases hget
    exact ⟨m, rfl, hadv⟩
  · exact ⟨m₀, hget, .refl m₀⟩

/-- The step lemma: a stored record is still stored, or one it may advance to. -/
theorem advance_of_effect (h : Effect i w w') (hget : Table.get Mission.id w.rows id = some m) :
    Holds id m w' := by
  cases h with
  | none => exact ⟨m, hget, .refl m⟩
  | insert new rows hins =>
    obtain ⟨hfree, hrows⟩ := Table.insert_eq_some hins
    refine ⟨m, ?_, .refl m⟩
    have hne : id ≠ new.id := fun heq => by
      rw [heq, hfree] at hget
      cases hget
    rw [hrows, if_neg hne, hget]
  | overwrite cur new hcur hkeeps => exact advance_of_overwrite hcur hkeeps.advances hget
  | swap cur new hcur hadv =>
    have hover := advance_of_overwrite hcur hadv hget
    unfold Holds at hover ⊢
    rwa [rows_swap]

/-- A mission only advances. -/
theorem holds_persistent (id : String) (m : Mission) : (contract ι).Persistent (Holds id m) := by
  rintro i w o r w' hmove ⟨cur, hcur, hadv⟩
  obtain ⟨cur', hcur', hadv'⟩ := advance_of_effect (effect_of_move hmove) hcur
  exact ⟨cur', hcur', hadv.trans hadv'⟩

theorem plans_grow (h : Effect i w w') {e : ι × String × Int64} (he : e ∈ w.plans) :
    e ∈ w'.plans := by
  cases h with
  | none | insert _ _ _ | overwrite _ _ _ _ => exact he
  | swap cur m hcur hadv =>
    unfold World.swap
    split
    · exact he
    · exact List.mem_cons_of_mem _ he

theorem planned_persistent (e : ι × String × Int64) : (contract ι).Persistent fun w => e ∈ w.plans :=
  fun _ _ _ _ _ hmove he => plans_grow (effect_of_move hmove) he

/-- Plan writes stay behind: the rows have advanced. -/
theorem behind_of_effect (h : Effect i w w') {n : Int64}
    (hw : ∃ cur, Table.get Mission.id w.rows id = some cur ∧ n ≤ cur.plan.revision) :
    ∃ cur, Table.get Mission.id w'.rows id = some cur ∧ n ≤ cur.plan.revision := by
  obtain ⟨cur, hcur, hn⟩ := hw
  obtain ⟨cur', hcur', hadv⟩ := advance_of_effect h hcur
  exact ⟨cur', hcur', Int64.le_trans hn hadv.revision⟩

/-- **Every step keeps the invariant.** -/
theorem preserved : (contract ι).Preserved := by
  intro i w o r w' hmove
  have heffect := effect_of_move hmove
  obtain ⟨hbehind, honce⟩ := hmove.1
  have hold : ∀ j id n, (j, id, n) ∈ w.plans →
      ∃ cur, Table.get Mission.id w'.rows id = some cur ∧ n ≤ cur.plan.revision :=
    fun j id n hmem => behind_of_effect heffect (hbehind j id n hmem)
  cases heffect with
  | none | insert _ _ _ | overwrite _ _ _ _ => exact ⟨hold, honce⟩
  | swap cur m hcur hadv =>
    by_cases hrev : m.plan.revision = cur.plan.revision
    · have hplans : (w.swap i cur m).plans = w.plans := by
        rw [World.swap, if_pos hrev]
        rfl
      exact ⟨fun j id n hmem => hold j id n (hplans ▸ hmem), hplans ▸ honce⟩
    · have hplans : (w.swap i cur m).plans = (i, m.id, m.plan.revision) :: w.plans := by
        rw [World.swap, if_neg hrev]
        rfl
      constructor
      · intro j id n hmem
        rw [hplans, List.mem_cons] at hmem
        rcases hmem with heq | hmem
        · cases heq
          exact ⟨m, by rw [rows_swap, get_overwrite hcur, if_pos rfl], Int64.le_refl _⟩
        · exact hold j id n hmem
      · -- the new revision is above all that were written before
        rw [hplans, List.map_cons, List.nodup_cons]
        refine ⟨fun hmem => ?_, honce⟩
        obtain ⟨⟨j, id, n⟩, hmem, heq⟩ := List.mem_map.mp hmem
        cases heq
        obtain ⟨cur', hcur', hle⟩ := hbehind j _ _ hmem
        rw [hcur] at hcur'
        cases hcur'
        exact hrev (Int64.le_antisymm hle hadv.revision)

/-! ## 4. Outlines -/

/-- What a program of the party `i` comes to, beside all the others. -/
abbrev Proves (i : ι) (F : World ι → Prop) (p : Call α) (Q : α → World ι → Prop) : Prop :=
  (contract ι).Outline i F p Q

variable (hF : (contract ι).Persistent F)

include hF

variable {f : o.Res → Call α}

/-- An operation that is allowed whatever it is answered, and what its answer tells. -/
theorem outline_ask (hallowed : Allowed o) (ψ : o.Res → World ι → Prop)
    (hψ : ∀ r, (contract ι).Persistent (ψ r))
    (htells : ∀ w r w', (contract ι).Move i w o r w' → ψ r w')
    (hk : ∀ r, Proves i (fun w => F w ∧ ψ r w) (f r) Q) : Proves i F (issue o >>= f) Q :=
  Outline.learn _ (fun _ _ _ => hallowed) (fun r => (hF.and (hψ r)).stable i)
    (fun w r w' hf hmove => ⟨hF i w o r w' hmove hf, htells w r w' hmove⟩) hk

/-- An operation whose answer is of no consequence. -/
theorem outline_plain (hallowed : Allowed o) (hk : ∀ r, Proves i F (f r) Q) :
    Proves i F (issue o >>= f) Q :=
  Outline.keep (fun _ _ _ => hallowed) (hF.stable i)
    (fun w r w' hmove hf => hF i w o r w' hmove hf) hk

/-- What a read tells. -/
theorem outline_get {f : Except Err Mission → Call α} (herror : ∀ e, Proves i F (f (.error e)) Q)
    (hok : ∀ m, m.id = id → Proves i (fun w => F w ∧ Holds id m w) (f (.ok m)) Q) :
    Proves i F (getWithSnapshot id >>= f) Q := by
  unfold getWithSnapshot
  split
  · exact herror _
  refine outline_ask hF trivial (fun r w => ∀ m, r = .ok m → m.id = id ∧ Holds id m w) ?_ ?_ ?_
  · intro r i w o r' w' hmove h m hm
    exact ⟨(h m hm).1, holds_persistent id m i w o r' w' hmove (h m hm).2⟩
  · rintro w r w' ⟨-, -, -, hsem⟩ m rfl
    simp only [contract, sem, Option.ite_none_right_eq_some] at hsem
    obtain ⟨hget, hsame⟩ := hsem
    cases hsame
    exact ⟨Table.key_of_get hget, m, hget, .refl m⟩
  · intro r
    cases r with
    | error e => exact (herror e).pre fun w _ h => h.1
    | ok m =>
      by_cases hid : m.id = id
      · exact (hok m hid).pre fun w _ h => ⟨h.1, (h.2 m rfl).2⟩
      · exact (Outline.absurd (f (.ok m))).pre fun w _ h => hid (h.2 m rfl).1

/-- What a conditional write tells when it went through. -/
theorem outline_swap {expected value : Mission} {f : Wrote → Call α}
    (hid : value.id = expected.id) (hadv : CanGrow expected value → Advances expected value)
    (hlost : ∀ r, r ≠ .done → Proves i F (f r) Q)
    (hdone : Proves i (fun w => F w ∧ Holds value.id value w ∧
      (value.plan.revision ≠ expected.plan.revision →
        (i, value.id, value.plan.revision) ∈ w.plans)) (f .done) Q) :
    Proves i F (issue (.updateKVIfUnchanged expected value) >>= f) Q := by
  refine outline_ask hF ⟨hid, hadv⟩ (fun r w => r = .done → Holds value.id value w ∧
    (value.plan.revision ≠ expected.plan.revision →
      (i, value.id, value.plan.revision) ∈ w.plans)) ?_ ?_ ?_
  · exact fun r => ((holds_persistent _ _).and (planned_persistent _).imp).imp
  · rintro w r w' ⟨-, -, -, hsem⟩ rfl
    have happlies : Table.get Mission.id w.rows value.id = some expected ∧
        w' = w.swap i expected value := by
      simp only [contract, sem, World.write, Option.ite_none_right_eq_some, decide_eq_true_eq]
        at hsem
      exact ⟨hsem.1, (Option.some.inj hsem.2).symm⟩
    obtain ⟨hget, rfl⟩ := happlies
    refine ⟨⟨value, ?_, .refl value⟩, fun hrev => ?_⟩
    · rw [rows_swap, get_overwrite hget, if_pos rfl]
    · rw [World.swap, if_neg hrev]
      exact List.mem_cons_self
  · intro r
    cases r with
    | done => exact hdone.pre fun w _ h => ⟨h.1, h.2 rfl⟩
    | noRow => exact (hlost .noRow (by simp)).pre fun w _ h => h.1
    | failed c => exact (hlost (.failed c) (by simp)).pre fun w _ h => h.1

/-- A judgement that lets a record end or advance. -/
structure Sound (judge : Mission → Judgement) : Prop where
  stop : ∀ m a, judge m = .stop (.ok a) → a = m
  write : ∀ m f now, judge m = .write f →
    (f now).id = m.id ∧ (CanGrow m (f now) → Advances m (f now))

/-- The record that was acknowledged comes of a judgement. -/
def Judged (judge : Mission → Judgement) (m a : Mission) : Prop :=
  judge m = .stop (.ok a) ∨ ∃ f now, judge m = .write f ∧ a = f now

/-- What an acknowledged conditional writer knows from then on. -/
def Acked (i : ι) (id : String) (judge : Mission → Judgement) (a : Mission) (w : World ι) : Prop :=
  Holds id a w ∧ ∃ m, Judged judge m a ∧
    (a.plan.revision ≠ m.plan.revision → (i, id, a.plan.revision) ∈ w.plans)

omit hF

/-- The loop of the conditional writers: whatever was acknowledged is stored, or has been built
on. -/
theorem casLoop_outline {judge : Mission → Judgement} (hsound : Sound judge)
    (gaveUp : Err) (n : Nat) (hF : (contract ι).Persistent F) :
    Proves i F (casLoop id judge gaveUp n) fun r w => ∀ a, r = .ok a → Acked i id judge a w := by
  induction n with
  | zero => exact .ret nofun
  | succ n ih =>
    refine outline_get hF (fun e => Outline.ret nofun) fun m hid => ?_
    dsimp only
    cases hjudge : judge m with
    | stop r =>
      refine .ret fun w _ hw a ha => ?_
      subst ha
      have ham := hsound.stop m a hjudge
      subst ham
      exact ⟨hw.2, a, .inl hjudge, fun h => absurd rfl h⟩
    | write f =>
      refine outline_plain (hF.and (holds_persistent id m)) trivial fun now => ?_
      obtain ⟨hfid, hadv⟩ := hsound.write m f now hjudge
      refine outline_swap (hF.and (holds_persistent id m)) hfid hadv ?_ ?_
      · intro r hr
        cases r with
        | done => exact absurd rfl hr
        | noRow => exact ih.pre fun w _ h => h.1
        | failed c => exact .ret fun w _ _ a ha => by cases ha
      · refine .ret fun w _ hw a ha => ?_
        cases ha
        rw [hfid, hid] at hw
        exact ⟨hw.2.1, m, .inr ⟨f, now, hjudge, rfl⟩, hw.2.2⟩

/-! ## 5. The judgements -/

section

variable {quote : String → String} {m a : Mission}

/-- What a judgement may do with the record it was made on, and `P`, which it makes true of it. -/
def Judgement.Fits (m : Mission) (P : Mission → Prop) : Judgement → Prop
  | .stop (.ok a) => a = m ∧ P a
  | .stop (.error _) => True
  | .write f => ∀ now, (f now).id = m.id ∧ (CanGrow m (f now) → Advances m (f now)) ∧ P (f now)

section Fits

variable {judge : Mission → Judgement} {P : Mission → Mission → Prop}
  (h : ∀ m, (judge m).Fits m (P m))

include h

theorem sound_of_fits : Sound judge := by
  refine ⟨fun m a hjudge => ?_, fun m f now hjudge => ?_⟩
  · exact (hjudge ▸ h m : (Judgement.stop (.ok a)).Fits m (P m)).1
  · obtain ⟨hid, hadv, -⟩ := (hjudge ▸ h m : (Judgement.write f).Fits m (P m)) now
    exact ⟨hid, hadv⟩

theorem Judged.fits (hj : Judged judge m a) : P m a := by
  rcases hj with hjudge | ⟨f, now, hjudge, rfl⟩
  · exact (hjudge ▸ h m : (Judgement.stop (.ok a)).Fits m (P m)).2
  · exact ((hjudge ▸ h m : (Judgement.write f).Fits m (P m)) now).2.2

end Fits

/-- An acknowledged binding has bound what it was asked to bind. -/
theorem judgeBind_fits (id sessionID instanceID : String) (m : Mission) :
    (judgeBind quote id sessionID instanceID m).Fits m fun a =>
      (sessionID ≠ "" → a.sessionID = sessionID) ∧ (instanceID ≠ "" → a.instanceID = instanceID) := by
  unfold judgeBind
  split
  · trivial
  rename_i hsession
  split
  · trivial
  rename_i hinstance
  have hs : sessionID ≠ "" → m.sessionID ≠ "" → m.sessionID = sessionID :=
    fun hne hset => not_not.mp fun hdiff => hsession ⟨hne, hset, hdiff⟩
  have hn : instanceID ≠ "" → m.instanceID ≠ "" → m.instanceID = instanceID :=
    fun hne hset => not_not.mp fun hdiff => hinstance ⟨hne, hset, hdiff⟩
  split
  · refine fun now => ⟨rfl, fun _ => ⟨fun _ => ⟨rfl, rfl⟩, fun hne => if_neg hne,
      fun hne => if_neg hne, Int64.le_refl _, fun _ => rfl⟩, fun hne => ?_, fun hne => ?_⟩
    · by_cases hset : m.sessionID = ""
      · exact if_pos hset
      · exact (if_neg hset).trans (hs hne hset)
    · by_cases hset : m.instanceID = ""
      · exact if_pos hset
      · exact (if_neg hset).trans (hn hne hset)
  · rename_i hfree
    exact ⟨rfl, fun hne => hs hne fun hset => hfree (.inl ⟨hne, hset⟩),
      fun hne => hn hne fun hset => hfree (.inr ⟨hne, hset⟩)⟩

theorem judgeHeartbeat_fits (lastErr : String) (m : Mission) :
    (judgeHeartbeat lastErr m).Fits m fun _ => True := by
  unfold judgeHeartbeat
  split
  · exact ⟨rfl, trivial⟩
  · exact fun now => ⟨rfl, fun _ => ⟨fun _ => ⟨rfl, rfl⟩, fun _ => rfl, fun _ => rfl,
      Int64.le_refl _, fun _ => rfl⟩, trivial⟩

/-- A mission is finished with the status asked for. -/
theorem judgeFinish_fits (id : String) (status : Status) (reason : String) (m : Mission) :
    (judgeFinish quote id status reason m).Fits m (·.status = status) := by
  unfold judgeFinish
  split
  · split
    · exact ⟨rfl, ‹_›⟩
    · trivial
  · rename_i hopen
    exact fun now => ⟨rfl, fun _ => ⟨fun hterm => absurd hterm hopen, fun _ => rfl, fun _ => rfl,
      Int64.le_refl _, fun _ => rfl⟩, rfl⟩

/-- A plan is stored as it was given. -/
theorem judgeSetPlan_fits (entries : List PlanEntry) (explanation : String) (m : Mission) :
    (judgeSetPlan quote entries explanation m).Fits m
      (·.plan = ⟨entries, m.plan.revision + 1, trimSpace explanation⟩) := by
  unfold judgeSetPlan
  split
  · trivial
  refine fun now => ⟨rfl, fun hgrow => ?_, rfl⟩
  have hrev : (revisePlan entries explanation m now).plan.revision = m.plan.revision + 1 := rfl
  have hne : m.plan.revision + 1 ≠ m.plan.revision := by simp
  have hlast := hgrow (hrev ▸ hne)
  refine ⟨fun _ => ⟨rfl, rfl⟩, fun _ => rfl, fun _ => rfl, ?_, fun heq => absurd heq (hrev ▸ hne)⟩
  rw [hrev]
  grind

end

/-! ## 6. Programs -/

section

variable (quote : String → String) (durationText : Int → String)

theorem reclaim_issues (id : String) (now : Time) :
    (reclaim durationText id now).Issues Allowed := by
  refine Prog.Issues.bind ?_ fun r => ?_
  · exact issues_ite (issues_pure _) (issues_perform trivial)
  cases r with
  | error e => cases e <;> exact issues_pure _
  | ok m =>
    dsimp only
    split
    · exact issues_pure _
    rename_i hstale
    refine Prog.Issues.bind (issues_op trivial fun r => ?_) fun r => ?_
    · cases r <;> exact issues_pure _
    cases r with
    | error e => exact issues_pure _
    | ok bound =>
      refine issues_ite (issues_pure _) (issues_op ⟨rfl, ?_⟩ fun r => ?_)
      · -- a stale mission is open, so its status may change
        have hopen : m.status = .opened := by
          unfold isStale at hstale
          simp only [Bool.not_eq_false, Bool.and_eq_true, decide_eq_true_eq] at hstale
          exact hstale.1
        refine fun _ => ⟨fun hterm => ?_, fun _ => rfl, fun _ => rfl, Int64.le_refl _, fun _ => rfl⟩
        rw [hopen] at hterm
        cases hterm
      · cases r <;> exact issues_pure _

theorem sweepPage_issues (now : Time) (reclaimed : Nat) (batch : List Mission) :
    (sweepPage durationText now reclaimed batch).Issues Allowed := by
  induction batch generalizing reclaimed with
  | nil => exact issues_pure _
  | cons m rest ih =>
    refine issues_ite (ih reclaimed) ?_
    refine Prog.Issues.bind (reclaim_issues durationText m.id now) fun r => ?_
    cases r with
    | error e => exact issues_pure _
    | ok ok => exact issues_ite (issues_pure _) (ih _)

theorem sweepPages_issues (now : Time) (pages : Nat) (cursor : Option Time) (reclaimed : Nat) :
    (sweepPages durationText now pages cursor reclaimed).Issues Allowed := by
  induction pages generalizing cursor reclaimed with
  | zero => exact issues_op trivial fun r => r.elim
  | succ pages ih =>
    refine issues_ite (issues_pure _) (issues_op trivial fun r => ?_)
    cases r with
    | error e => exact issues_pure _
    | ok page =>
      obtain ⟨batch, next⟩ := page
      refine Prog.Issues.bind (sweepPage_issues durationText now reclaimed batch) fun r => ?_
      obtain ⟨reclaimed', err⟩ := r
      cases err with
      | some e => exact issues_pure _
      | none => exact issues_ite (issues_pure _) (ih next reclaimed')

theorem create_issues (m : Mission) : (create quote m).Issues Allowed := by
  unfold create
  dsimp only
  split
  · exact issues_pure _
  refine Prog.Issues.bind ?_ fun id => ?_
  · exact issues_ite (issues_perform trivial) (issues_pure _)
  · exact issues_op trivial fun now => issues_op trivial fun r => issues_pure _

theorem update_issues (m : Mission) : (update quote m).Issues Allowed := by
  refine issues_ite (issues_pure _) ?_
  split
  · exact issues_pure _
  · exact issues_op trivial fun now => issues_op trivial fun r => issues_pure _

/-- The entries `SetPlan` stores are those it was given, trimmed and with ids. -/
def Normalized (e e' : PlanEntry) : Prop :=
  (trimSpace e.id ≠ "" → e'.id = e.id) ∧ e'.content = trimSpace e.content ∧
    e'.status = e.status ∧ e'.priority = e.priority

theorem normalizeEntries_outline (known : Prop) (entries : List PlanEntry) :
    Proves i (fun _ => known) (normalizeEntries entries)
      fun r _ => known ∧ List.Forall₂ Normalized entries r := by
  induction entries generalizing known with
  | nil => exact .ret fun _ _ h => ⟨h, .nil⟩
  | cons e rest ih =>
    have hid : Proves i (fun _ => known) (if trimSpace e.id = "" then issue .mint else return e.id)
        fun id _ => known ∧ (trimSpace e.id ≠ "" → id = e.id) := by
      split
      · rename_i hblank
        exact .keep (fun _ _ _ => trivial) ((persistent_const known).stable i)
          (fun _ _ _ _ h => h) fun id => Outline.ret fun _ _ h => ⟨h, fun hne => absurd hblank hne⟩
      · exact .ret fun _ _ h => ⟨h, fun _ => rfl⟩
    refine .bind (fun id => ?_) hid
    refine .bind (fun rest' => Outline.ret fun _ _ h => ?_) (ih _)
    exact ⟨h.1.1, .cons ⟨h.1.2, rfl, rfl, rfl⟩ h.2⟩

/-- What an acknowledged call may rely on: its record is stored or has been built on, and it says
what the call asked for. -/
def Party.Acknowledged (i : ι) : Party → Reply → World ι → Prop
  | .bind id sessionID instanceID, .mission (.ok a), w => Holds id a w ∧
      (sessionID ≠ "" → a.sessionID = sessionID) ∧ (instanceID ≠ "" → a.instanceID = instanceID)
  | .finish id status _, .mission (.ok a), w => Holds id a w ∧
      isTerminalStatus status = true ∧ a.status = status
  | .setPlan id entries explanation, .mission (.ok a), w => Holds id a w ∧
      List.Forall₂ Normalized entries a.plan.entries ∧
      a.plan.explanation = trimSpace explanation ∧ (i, id, a.plan.revision) ∈ w.plans
  | _, _, _ => True

/-- A program that is only known to issue what is allowed. -/
theorem outline_of_issues {p : Call α} (h : p.Issues Allowed) :
    Proves i (fun _ => True) p fun _ _ => True :=
  Outline.of_issues (persistent_const True) (fun _ _ _ _ h => h) h

/-- **What a party is told has happened.** -/
theorem party_outline (p : Party) : Proves i (fun _ => True)
    (p.prog quote durationText) (p.Acknowledged i) := by
  have hT : (contract ι).Persistent fun _ => True := persistent_const True
  cases p with
  | create m =>
    exact .bind (fun r => .ret fun _ _ _ => trivial) (outline_of_issues (create_issues quote m))
  | update m =>
    exact .bind (fun r => .ret fun _ _ _ => trivial) (outline_of_issues (update_issues quote m))
  | sweepAbandoned pages =>
    have hissues : (Missions.sweepAbandoned durationText pages).Issues Allowed :=
      issues_op trivial fun now => sweepPages_issues durationText now pages none 0
    exact .bind (fun r => .ret fun _ _ _ => trivial) (outline_of_issues hissues)
  | bind id sessionID instanceID =>
    have hbind : Proves i (fun _ => True) (Missions.bind quote id sessionID instanceID)
        fun r w => ∀ a, r = .ok a → Acked i id (judgeBind quote id sessionID instanceID) a w := by
      unfold Missions.bind
      split
      · exact .ret nofun
      · exact casLoop_outline (sound_of_fits (judgeBind_fits id sessionID instanceID)) _ _ hT
    refine .bind (fun r => Outline.ret fun w _ h => ?_) hbind
    cases r with
    | error e => trivial
    | ok a =>
      obtain ⟨hholds, m, hjudged, -⟩ := h a rfl
      exact ⟨hholds, hjudged.fits (judgeBind_fits id sessionID instanceID)⟩
  | heartbeat id lastErr =>
    exact .bind (fun r => .ret fun _ _ _ => trivial)
      (casLoop_outline (sound_of_fits (judgeHeartbeat_fits lastErr)) _ _ hT)
  | finish id status reason =>
    have hfinish : Proves i (fun _ => True) (Missions.finish quote id status reason)
        fun r w => ∀ a, r = .ok a → isTerminalStatus status = true ∧
          Acked i id (judgeFinish quote id status reason) a w := by
      unfold Missions.finish
      split
      · exact .ret nofun
      rename_i hterm
      exact (casLoop_outline (sound_of_fits (judgeFinish_fits id status reason)) _ _ hT).post
        fun r w _ h a ha => ⟨eq_true_of_ne_false hterm, h a ha⟩
    refine .bind (fun r => Outline.ret fun w _ h => ?_) hfinish
    cases r with
    | error e => trivial
    | ok a =>
      obtain ⟨hterm, hholds, m, hjudged, -⟩ := h a rfl
      exact ⟨hholds, hterm, hjudged.fits (judgeFinish_fits id status reason)⟩
  | setPlan id entries explanation =>
    have hplan : Proves i (fun _ => True) (Missions.setPlan quote id entries explanation)
        fun r w => ∀ a, r = .ok a → ∃ entries', List.Forall₂ Normalized entries entries' ∧
          Acked i id (judgeSetPlan quote entries' explanation) a w := by
      refine .bind (fun entries' => ?_) (normalizeEntries_outline True entries)
      split
      · exact .ret nofun
      have hconst : (contract ι).Persistent fun _ =>
          True ∧ List.Forall₂ Normalized entries entries' := persistent_const _
      by_cases hnorm : List.Forall₂ Normalized entries entries'
      · exact (casLoop_outline (sound_of_fits (judgeSetPlan_fits entries' explanation)) _ _
          hconst).post fun r w _ h a ha => ⟨entries', hnorm, h a ha⟩
      · exact (Outline.absurd _).pre fun _ _ h => hnorm h.2
    refine .bind (fun r => Outline.ret fun w _ h => ?_) hplan
    cases r with
    | error e => trivial
    | ok a =>
      obtain ⟨entries', hnorm, hholds, m, hjudged, hplanned⟩ := h a rfl
      have hplan := hjudged.fits (judgeSetPlan_fits entries' explanation)
      have hrev : a.plan.revision ≠ m.plan.revision := by
        simp [hplan]
      refine ⟨hholds, ?_, ?_, hplanned hrev⟩
      · rw [hplan]
        exact hnorm
      · rw [hplan]

end

end Contract

/-! ## 7. Runs -/

section

variable {ι : Type} [DecidableEq ι] (quote : String → String) (durationText : Int → String)

/-- Some missions are stored, and every party is at the start of its call. -/
def start (rows : List Mission) (calls : ι → Party) : Config ι (World ι) Op Op.Res Reply :=
  ⟨⟨rows, []⟩, fun i => (calls i).prog quote durationText⟩

omit [DecidableEq ι] in
theorem inv_start (rows : List Mission) : Inv (⟨rows, []⟩ : World ι) where
  behind _ _ _ h := by cases h
  once := List.nodup_nil

variable {quote durationText} {rows : List Mission} {calls : ι → Party}
  {c c' : Config ι (World ι) Op Op.Res Reply}

/-- The invariant and the acknowledgements in every run of careful steps. -/
theorem reach_acknowledged (hr : Reach sem Careful (start quote durationText rows calls) c) :
    Inv c.store ∧ ∀ i reply, c.pool i = .ret reply → (calls i).Acknowledged i reply c.store := by
  have hst : ∀ i, (contract ι).Stable i fun _ => True :=
    fun i => (persistent_const True).stable i
  have hpool := fun i => party_outline (i := i) quote durationText (calls i)
  exact ⟨(Contract.reach_outline preserved (inv_start rows) hst (fun _ => trivial) hpool hr).1,
    fun i reply hret =>
      Contract.reach_post preserved (inv_start rows) hst (fun _ => trivial) hpool hr hret⟩

/-- What is stored, or has been built on, stays so. -/
theorem reach_holds (hr : Reach sem Careful (start quote durationText rows calls) c)
    (hr' : Reach sem Careful c c') {id : String} (h : Holds id m c.store) : Holds id m c'.store :=
  Contract.reach_persistent preserved (inv_start rows)
    (fun i => (persistent_const True).stable i) (fun _ => trivial)
    (fun i => party_outline quote durationText (calls i)) (holds_persistent id m) hr hr' h

/-- The party was told that its call went through, with this record. -/
def Told (c : Config ι (World ι) Op Op.Res Reply) (i : ι) (a : Mission) : Prop :=
  c.pool i = .ret (.mission (.ok a))

/-- **Nothing is lost.**  In every run whose blind writes are careful, from any point of it on: a
stored record only advances, and what a binding, a finish or a plan was told stays true of what is
stored.  No two plans of a mission are told the same revision. -/
theorem acknowledged_not_lost (hr : Reach sem Careful (start quote durationText rows calls) c)
    (hr' : Reach sem Careful c c') :
    (∀ id m, Table.get Mission.id c.store.rows id = some m → Holds id m c'.store) ∧
    (∀ i id status reason a, calls i = .finish id status reason → Told c i a →
      a.status = status ∧ isTerminalStatus status = true ∧ Holds id a c'.store) ∧
    (∀ i id sessionID instanceID a, calls i = .bind id sessionID instanceID → Told c i a →
      (sessionID ≠ "" → a.sessionID = sessionID) ∧ (instanceID ≠ "" → a.instanceID = instanceID) ∧
        Holds id a c'.store) ∧
    (∀ i id entries explanation a, calls i = .setPlan id entries explanation → Told c i a →
      List.Forall₂ Normalized entries a.plan.entries ∧
        a.plan.explanation = trimSpace explanation ∧ Holds id a c'.store) ∧
    (∀ i j id entries entries' explanation explanation' a a',
      calls i = .setPlan id entries explanation → calls j = .setPlan id entries' explanation' →
      Told c i a → Told c j a' → a.plan.revision = a'.plan.revision → i = j) := by
  obtain ⟨hinv, hacks⟩ := reach_acknowledged hr
  refine ⟨?_, ?_, ?_, ?_, ?_⟩
  · intro id m hget
    exact reach_holds hr hr' ⟨m, hget, .refl m⟩
  · intro i id status reason a hcall htold
    have hack := hacks i _ htold
    rw [hcall] at hack
    exact ⟨hack.2.2, hack.2.1, reach_holds hr hr' hack.1⟩
  · intro i id sessionID instanceID a hcall htold
    have hack := hacks i _ htold
    rw [hcall] at hack
    exact ⟨hack.2.1, hack.2.2, reach_holds hr hr' hack.1⟩
  · intro i id entries explanation a hcall htold
    have hack := hacks i _ htold
    rw [hcall] at hack
    exact ⟨hack.2.1, hack.2.2.1, reach_holds hr hr' hack.1⟩
  · intro i j id entries entries' explanation explanation' a a' hi hj htold htold' heq
    have hack := hacks i _ htold
    have hack' := hacks j _ htold'
    rw [hi] at hack
    rw [hj] at hack'
    -- both wrote this revision, and it was written once
    have hmem := hack.2.2.2
    have hmem' := hack'.2.2.2
    rw [← heq] at hmem'
    have hsame := List.inj_on_of_nodup_map hinv.once hmem hmem' rfl
    exact congrArg Prod.fst hsame

/-- An open mission, and a copy of it with another intent. -/
def patrol : Mission where
  id := "p"
  intent := "patrol"
  agentName := "beam"
  hitlPolicyName := "strict"
  sessionID := ""
  instanceID := ""
  parentSessionID := ""
  status := .opened
  statusReason := ""
  plan := ⟨[], 0, ""⟩
  planRevisions := []
  lastHeartbeat := none
  lastError := ""
  createdAt := 0
  updatedAt := 0

/-- The first party finishes the mission, the second one updates it with a copy of its own. -/
def finishAndUpdate (copy : Mission) : Fin 2 → Party
  | 0 => .finish "p" .landed "done"
  | 1 => .update { copy with intent := "patrol again" }

def again (copy : Mission) : Mission := { copy with intent := "patrol again", updatedAt := 2 }

def landed : Mission :=
  { patrol with status := .landed, statusReason := "done", updatedAt := 1 }

/-- The run in which the first party finishes the mission. -/
theorem reach_finished (copy : Mission) (ok : StepCond (Fin 2) (World (Fin 2)) Op Op.Res)
    (hok : ∀ i w o r, (∀ m, o ≠ .setKV m) → (∀ m, o ≠ .updateKV m) →
      (∀ m m', o = .updateKVIfUnchanged m m' → m'.plan = m.plan) → ok i w o r) :
    ∃ c, Reach sem ok (start id toString [patrol] (finishAndUpdate copy)) c ∧ Told c 0 landed ∧
      c.store = ⟨[landed], []⟩ ∧ c.pool 1 = (finishAndUpdate copy 1).prog id toString := by
  have run := (Reach.start : Reach sem ok (start id toString [patrol] (finishAndUpdate copy)) _)
    |>.step 0 (.getKVRaw "p") (.ok patrol) (by rfl)
      (hok _ _ _ _ (by simp) (by simp) (by simp)) (by rfl)
    |>.step 0 .now 1 (by rfl) (hok _ _ _ _ (by simp) (by simp) (by simp)) (by rfl)
    |>.step 0 (.updateKVIfUnchanged patrol landed) .done (by rfl)
      (hok _ _ _ _ (by simp) (by simp) (by rintro m m' h; cases h; rfl)) (by rfl)
  exact ⟨_, run, by rfl, by rfl, by rfl⟩

/-- The second party has read the mission again before it updates it: the finish is still there. -/
theorem acknowledged_not_lost_landed :
    ∃ c c', Reach sem Careful (start id toString [patrol] (finishAndUpdate landed)) c ∧
      Told c 0 landed ∧ Reach sem Careful c c' ∧ c'.store = ⟨[again landed], []⟩ ∧
      Holds "p" landed c'.store := by
  have hok : ∀ (i : Fin 2) (w : World (Fin 2)) (o : Op) (r : o.Res), (∀ m, o ≠ .setKV m) →
      (∀ m, o ≠ .updateKV m) →
      (∀ m m', o = .updateKVIfUnchanged m m' → m'.plan = m.plan) → Careful i w o r := by
    intro i w o r hset hupdate hswap
    cases o with
    | setKV m => exact absurd rfl (hset m)
    | updateKV m => exact absurd rfl (hupdate m)
    | updateKVIfUnchanged m m' =>
      exact fun hne => absurd (congrArg Plan.revision (hswap m m' rfl)) hne
    | _ => trivial
  obtain ⟨⟨store, pool⟩, hr, htold, hstore, hpool⟩ := reach_finished landed Careful hok
  cases hstore
  have hkeeps : ∀ cur, Table.get Mission.id [landed] "p" = some cur → Keeps cur (again landed) := by
    intro cur hcur
    cases hcur
    exact ⟨fun _ => ⟨rfl, rfl⟩, fun _ => rfl, fun _ => rfl, rfl⟩
  have hnow := (Reach.start : Reach sem Careful _ _).step 1 .now 2 hpool trivial (by rfl)
  have hr' := hnow.step 1 (.updateKV (again landed)) .done (by rfl) hkeeps (by rfl)
  exact ⟨_, _, hr, htold, hr', rfl,
    ((acknowledged_not_lost hr hr').2.1 0 "p" .landed "done" landed rfl htold).2.2⟩

/-- The mission has landed and its finish was acknowledged; then an update with an older copy of the
record puts it back in motion. -/
theorem update_reopens : ∃ c,
    Reach sem anyStep (start id toString [patrol] (finishAndUpdate patrol)) c ∧ Told c 0 landed ∧
      Table.get Mission.id c.store.rows "p" = some (again patrol) ∧
      (again patrol).status = .opened := by
  obtain ⟨c, hr, htold, hstore, hpool⟩ :=
    reach_finished patrol anyStep fun _ _ _ _ _ _ _ => trivial
  obtain ⟨store, pool⟩ := c
  cases hstore
  have h₂ := hr
    |>.step 1 .now 2 hpool trivial
    |>.step 1 (.updateKV (again patrol)) .done (by rfl) trivial
  exact ⟨_, h₂, htold, rfl, rfl⟩

end

end Contenox.Missions
