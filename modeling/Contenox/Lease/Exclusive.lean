/-
# Who holds the lease

The lease is exclusive as long as the acquisition lock is: whoever is inside it is the only one to
read and write the file, so a record that is taken over has expired, by the file and by the handle it
belongs to.  The lock is not exclusive.  Two challengers find the directory of a dead process, both see
that it is old, the first removes it and makes its own, and the second removes that
(`two_challengers_hold`).

In every run in which nobody removes the directory of a live thread, and the files can be read and a
renewal can be written, the lease has one holder (`lease_held_once`).
-/
import Contenox.Lease.Lease
import Mathlib.Data.List.Basic

namespace Contenox.Lease

open Lib
open Lib.Contract (Outline)

variable {ι π : Type} {w' : World ι π} {i : ι} {n : Option Nat} {P : World ι π → Prop}
  {record : Record}

/-! ## 1. What a step does -/

section

variable {w : World ι π}

/-- Changing one handle changes what it says, and nothing else. -/
theorem held_modify (h : Nat) (f : Handle ι π → Handle ι π) (g : Held π → Held π)
    (hfg : ∀ hd, (f hd).held = g hd.held) : (w.modifyHandle h f).leases = w.leases.modify h g := by
  refine List.ext_getElem? fun n => ?_
  simp only [World.leases, World.modifyHandle, List.getElem?_map, List.getElem?_modify]
  cases w.handles[n]? with
  | none => rfl
  | some hd =>
    split <;> simp [hfg]

theorem held_of_mutex (h : Nat) (mu : Option ι) :
    (w.modifyHandle h fun hd => { hd with mu := mu }).leases = w.leases := by
  have hsame := held_modify (w := w) h (fun hd => { hd with mu := mu }) id fun _ => rfl
  rwa [List.modify_id] at hsame

/-- The ids and the processes of the handles, which stay. -/
def World.keys (w : World ι π) : List (String × π) :=
  w.leases.map fun l => (l.record.instanceID, l.proc)

theorem keys_modify (h : Nat) (f : Handle ι π → Handle ι π)
    (hf : ∀ hd, (f hd).record.instanceID = hd.record.instanceID ∧ (f hd).proc = hd.proc) :
    (w.modifyHandle h f).keys = w.keys := by
  refine List.ext_getElem? fun n => ?_
  simp only [World.keys, World.leases, World.modifyHandle, List.getElem?_map, List.getElem?_modify]
  cases w.handles[n]? with
  | none => rfl
  | some hd =>
    split <;> simp [Handle.held, hf]

variable [DecidableEq ι] {proc : ι → π} {o : Op π} {r : o.Res}

/-- What a step can do to the world. -/
inductive Effect (proc : ι → π) (i : ι) (w : World ι π) : (o : Op π) → o.Res → World ι π → Prop
  | nothing (o : Op π) (r : o.Res) : Effect proc i w o r w
  | tick (t : Int) (h : w.clock ≤ t) : Effect proc i w .tick t { w with clock := t }
  | crash (p : π) (r : Unit) : Effect proc i w (.crash p) r { w with crashed := p :: w.crashed }
  | made (bound : Int) (h : w.lockDir = none) :
      Effect proc i w (.mkdirLock bound) .made (w.enter i bound)
  | removeStale : Effect proc i w .removeStale true { w with lockDir := none }
  | unlock (removed : Bool) : Effect proc i w .unlock removed (w.leave i removed)
  | newID (id : String) (h : id ∉ w.ids) :
      Effect proc i w .newInstanceID id { w with ids := id :: w.ids }
  | linked (record : Record) (h : w.file = .absent) :
      Effect proc i w (.link record) .made { w with file := .record record }
  | renamed (record : Record) :
      Effect proc i w (.rename record) none ({ w with file := .record record }.setRenewing i none)
  | held (record : Record) : Effect proc i w (.hold record) w.handles.length
      { w with handles := w.handles ++ [⟨proc i, record, false, none⟩] }
  | mutex (o : Op π) (r : o.Res) {handles : List (Handle ι π)}
      (h : handles.map Handle.held = w.leases) : Effect proc i w o r { w with handles := handles }
  | renewedAt (h : Nat) (now : Int) (r : Unit) : Effect proc i w (.setRenewedAt h now) r
      ((w.modifyHandle h fun hd =>
        { hd with record := { hd.record with renewedAt := now } }).setRenewing i (some h))
  | removed (h : Nat) : Effect proc i w (.removeFile h) none
      ({ w with file := .absent }.modifyHandle h fun hd => { hd with released := true })

theorem Effect.of_ite {p : Prop} {_ : Decidable p} (h : (if p then some w else none) = some w') :
    Effect proc i w o r w' := by
  obtain ⟨-, rfl⟩ := of_guard h
  exact .nothing o r

theorem Effect.of_ite_not {p : Prop} {_ : Decidable p} (h : (if p then none else some w) = some w') :
    Effect proc i w o r w' := by
  obtain ⟨-, rfl⟩ := of_guard_not h
  exact .nothing o r

theorem Effect.of_some (h : some w = some w') : Effect proc i w o r w' := by
  cases h
  exact .nothing o r

variable [DecidableEq π]

theorem alive_of_sem (h : sem proc i w o r = some w') :
    proc i ∉ w.crashed ∧ act proc i w o r = some w' := by
  unfold sem at h
  rwa [Option.ite_none_left_eq_some] at h

/-- Every act has one of these effects. -/
theorem effect_of_act (h : act proc i w o r = some w') : Effect proc i w o r w' := by
  cases o with
  | tick =>
    obtain ⟨hle, rfl⟩ := of_guard h
    exact .tick _ hle
  | crash p =>
    cases h
    exact .crash p _
  | ctxErr | poll | writeTemp _ => exact .of_some h
  | mkdirLock bound =>
    cases r with
    | made =>
      obtain ⟨hfree, rfl⟩ := of_guard h
      exact .made bound hfree
    | «exists» => exact .of_ite_not h
    | failed e => exact .of_some h
  | statLock =>
    cases r with
    | info _ | notExist => exact .of_ite h
    | failed e => exact .of_some h
  | now | handleRecord _ => exact .of_ite h
  | removeStale =>
    cases r with
    | true =>
      cases h
      exact .removeStale
    | false => exact .of_some h
  | unlock =>
    cases h
    exact .unlock _
  | newInstanceID =>
    obtain ⟨hnew, rfl⟩ := of_guard_not h
    exact .newID _ hnew
  | link record =>
    cases r with
    | made =>
      obtain ⟨habsent, rfl⟩ := of_guard h
      exact .linked record habsent
    | «exists» => exact .of_ite_not h
    | failed e => exact .of_some h
  | readRecord challenge =>
    cases r with
    | record _ | notExist => exact .of_ite h
    | failed e => exact .of_some h
  | rename record =>
    cases r with
    | none =>
      cases h
      exact .renamed record
    | some e => exact .of_some h
  | hold record =>
    obtain ⟨hlength, rfl⟩ := of_guard h
    cases hlength
    exact .held record
  | lockHandle h' =>
    cases r with
    | true =>
      obtain ⟨-, rfl⟩ := of_guard h
      exact .mutex _ _ (held_of_mutex h' (some i))
    | false => exact .of_ite h
  | setRenewedAt h' now =>
    cases h
    exact .renewedAt h' now _
  | removeFile h' =>
    cases r with
    | none =>
      obtain ⟨-, rfl⟩ := of_guard_not h
      exact .removed h'
    | some e => exact .of_some h
  | unlockHandle h' =>
    cases h
    exact .mutex _ _ (held_of_mutex h' none)

end

/-! ## 2. Conditions on a run -/

section

variable (proc : ι → π)

/-- Nobody removes the directory while a live thread relies on it. -/
def RemovesDead : Lib.StepCond ι (World ι π) (Op π) Op.Res
  | _, w, .removeStale, true => ∀ j, w.inside j ≠ none → proc j ∈ w.crashed
  | _, _, _, _ => True

/-- A challenger can read a lease that is there, and that of a handle can be written. -/
def FilesWork : Lib.StepCond ι (World ι π) (Op π) Op.Res
  | _, w, .readRecord true, .failed _ => ∀ r, w.file ≠ .record r
  | _, w, .writeTemp record, some _ => ∀ l ∈ w.leases, l.record.instanceID ≠ record.instanceID
  | _, w, .rename record, some _ => ∀ l ∈ w.leases, l.record.instanceID ≠ record.instanceID
  | _, _, _, _ => True

def Careful : Lib.StepCond ι (World ι π) (Op π) Op.Res := fun i w o r =>
  RemovesDead proc i w o r ∧ FilesWork i w o r

/-- No live thread stays inside the acquisition lock longer than its bound. -/
def Prompt : Lib.StepCond ι (World ι π) (Op π) Op.Res
  | _, w, .tick, (t : Int) =>
    ∀ j s, w.inside j = some s → proc j ∉ w.crashed → t - s.since ≤ s.bound
  | _, _, _, _ => True

end

/-! ## 3. The contract -/

variable {l : Held π} {j : ι} {t : Int} {o : Op π} {r : o.Res}

section Contract

variable (proc : ι → π)

/-- The lease is held by a live instance, by its own record. -/
structure Live (w : World ι π) (l : Held π) : Prop where
  alive : l.proc ∉ w.crashed
  kept : l.released = false
  valid : ¬ l.record.expired w.clock

/-- A live thread in the lock. -/
structure Within (i : ι) (w : World ι π) : Prop where
  alive : proc i ∉ w.crashed
  inside : w.inside i ≠ none

structure LeaseInv (w : World ι π) : Prop where
  alone : ∀ i j, Within proc i w → Within proc j w → i = j
  dir : ∀ i, Within proc i w → w.lockDir ≠ none
  known : ∀ l ∈ w.leases, l.record.instanceID ∈ w.ids
  unique : ∀ (n m : Nat) (l l' : Held π), w.leases[n]? = some l → w.leases[m]? = some l' →
    l.record.instanceID = l'.record.instanceID → n = m
  renewing : ∀ (i : ι) (s : Inside) (n : Nat), w.inside i = some s → s.renewing = some n →
    ∃ l, w.leases[n]? = some l ∧ l.proc = proc i
  /-- the file is the record of a live lease, but for a renewal that is under way -/
  standing : ∀ (n : Nat) (l : Held π), w.leases[n]? = some l → Live w l →
    ∃ cur, w.file = .record cur ∧ cur.instanceID = l.record.instanceID ∧
      (cur = l.record ∨ ∃ i s, proc i ∉ w.crashed ∧ w.inside i = some s ∧ s.renewing = some n)

/-- The lease of a handle is in the file, but for a renewal that is under way. -/
def Backed (w : World ι π) (n : Nat) (l : Held π) : Prop :=
  ∃ cur, w.file = .record cur ∧ cur.instanceID = l.record.instanceID ∧
    (cur = l.record ∨ ∃ i s, proc i ∉ w.crashed ∧ w.inside i = some s ∧ s.renewing = some n)

/-- The handle belongs to the process of the thread. -/
def Owned (i : ι) (h : Nat) (w : World ι π) : Prop :=
  ∃ l : Held π, w.leases[h]? = some l ∧ l.proc = proc i

/-- Inside the lock, with no renewal under way. -/
def Settled (i : ι) (w : World ι π) : Prop := ∃ s, w.inside i = some s ∧ s.renewing = none

/-- The file is that of a handle of the thread's process. -/
def Mine (i : ι) (h : Nat) (w : World ι π) : Prop :=
  ∃ l cur, w.leases[h]? = some l ∧ l.proc = proc i ∧ w.file = .record cur ∧
    cur.instanceID = l.record.instanceID

def Granted (i : ι) (w : World ι π) : Op π → Prop
  | .unlock | .newInstanceID | .link _ => Settled i w
  | .rename record => w.inside i ≠ none ∧ ∀ l ∈ w.leases, Live w l → l.record = record
  | .hold record => Settled i w ∧ w.file = .record record ∧ record.instanceID ∈ w.ids ∧
      ∀ l ∈ w.leases, l.record.instanceID ≠ record.instanceID
  | .setRenewedAt h _ | .removeFile h => Settled i w ∧ Mine proc i h w
  | _ => True

/-- What a thread that is alive keeps to. -/
def Allowed (i : ι) (w : World ι π) (o : Op π) : Prop := proc i ∉ w.crashed → Granted proc i w o

variable {proc} {w : World ι π} {g : Held π → Held π}

/-- A lease after one of them was changed. -/
theorem lease_of_modify {h n : Nat} (hl : (w.leases.modify h g)[n]? = some l) :
    ∃ l₀, w.leases[n]? = some l₀ ∧ (h = n ∧ l = g l₀ ∨ h ≠ n ∧ l = l₀) := by
  rw [List.getElem?_modify] at hl
  obtain ⟨l₀, hl₀, rfl⟩ := Option.map_eq_some_iff.mp hl
  refine ⟨l₀, hl₀, ?_⟩
  by_cases hn : h = n
  · exact .inl ⟨hn, by rw [if_pos hn]⟩
  · exact .inr ⟨hn, by rw [if_neg hn]⟩

theorem lease_of_keys {n : Nat} (h : w'.keys <+: w.keys) (hl : w'.leases[n]? = some l) :
    ∃ l₀, w.leases[n]? = some l₀ ∧ l₀.record.instanceID = l.record.instanceID ∧ l₀.proc = l.proc := by
  obtain ⟨rest, h⟩ := h
  have hlt : n < w'.keys.length := by
    rw [World.keys, List.length_map]
    exact (List.getElem?_eq_some_iff.mp hl).1
  have hkey : w.keys[n]? = some (l.record.instanceID, l.proc) := by
    rw [← h, List.getElem?_append_left hlt, World.keys, List.getElem?_map, hl]
    rfl
  rw [World.keys, List.getElem?_map] at hkey
  obtain ⟨l₀, hl₀, heq⟩ := Option.map_eq_some_iff.mp hkey
  exact ⟨l₀, hl₀, Prod.mk.inj heq⟩

theorem Owned.of_keys {n : Nat} (howned : Owned proc i n w) (h : w.keys <+: w'.keys) :
    Owned proc i n w' := by
  obtain ⟨l, hl, hproc⟩ := howned
  obtain ⟨l', hl', -, hsame⟩ := lease_of_keys h hl
  exact ⟨l', hl', hsame.trans hproc⟩

theorem Live.before (hl : Live w' l) (hcrashed : w.crashed ⊆ w'.crashed)
    (hclock : w.clock ≤ w'.clock) : Live w l :=
  ⟨fun hdead => hl.alive (hcrashed hdead), hl.kept,
    fun hexp => hl.valid (Int.lt_of_lt_of_le hexp hclock)⟩

theorem Live.still (hl : Live w' l) (h : (w.crashed, w.clock) = (w'.crashed, w'.clock)) :
    Live w l := by
  obtain ⟨hcrashed, hclock⟩ := Prod.mk.inj h
  exact hl.before (hcrashed ▸ List.Subset.refl _) (hclock ▸ Int.le_refl _)

theorem Within.before (hj : Within proc j w') (hcrashed : w.crashed ⊆ w'.crashed)
    (hinside : w'.inside j = w.inside j) : Within proc j w :=
  ⟨fun hdead => hj.alive (hcrashed hdead), hinside ▸ hj.inside⟩

theorem Within.still (hj : Within proc j w')
    (h : (w.crashed, w'.inside j) = (w'.crashed, w.inside j)) : Within proc j w := by
  obtain ⟨hcrashed, hinside⟩ := Prod.mk.inj h
  exact hj.before (hcrashed ▸ List.Subset.refl _) hinside

variable (h : LeaseInv proc w)

include h

/-- A change after which every handle has its id and its process still, and nobody has come in. -/
theorem LeaseInv.change (hkeys : w'.keys = w.keys) (hids : w.ids ⊆ w'.ids)
    (hin : ∀ j, Within proc j w' → Within proc j w)
    (hdir : ∀ j, Within proc j w' → Within proc j w → w'.lockDir ≠ none)
    (hrenewing : ∀ j s n, w'.inside j = some s → s.renewing = some n → Owned proc j n w)
    (hstanding : ∀ n l, w'.leases[n]? = some l → Live w' l → Backed proc w' n l) :
    LeaseInv proc w' := by
  have hold : w'.keys <+: w.keys := hkeys ▸ List.prefix_rfl
  refine ⟨fun j k hj hk => h.alone j k (hin j hj) (hin k hk), fun j hj => hdir j hj (hin j hj),
    fun l hl => ?_, fun n m l l' hl hl' hsame => ?_,
    fun j s n hs hn => (hrenewing j s n hs hn).of_keys (hkeys ▸ List.prefix_rfl), hstanding⟩
  · obtain ⟨n, hl⟩ := List.mem_iff_getElem?.mp hl
    obtain ⟨l₀, hl₀, hid, -⟩ := lease_of_keys hold hl
    exact hids (hid ▸ h.known l₀ (List.mem_of_getElem? hl₀))
  · obtain ⟨l₀, hl₀, hid, -⟩ := lease_of_keys hold hl
    obtain ⟨l₁, hl₁, hid', -⟩ := lease_of_keys hold hl'
    exact h.unique n m l₀ l₁ hl₀ hl₁ (hid.trans (hsame.trans hid'.symm))

theorem LeaseInv.tick (ht : w.clock ≤ t) : LeaseInv proc { w with clock := t } :=
  h.change rfl (List.Subset.refl _) (fun _ hj => hj.still rfl) (fun j _ => h.dir j) h.renewing
    fun n l hl hlive => h.standing n l hl (hlive.before (fun _ hp => hp) ht)

theorem LeaseInv.mutex {handles : List (Handle ι π)} (hheld : handles.map Handle.held = w.leases) :
    LeaseInv proc { w with handles := handles } :=
  h.change (congrArg (List.map _) hheld) (List.Subset.refl _) (fun _ hj => hj.still rfl)
    (fun j _ => h.dir j) h.renewing fun n l hl hlive =>
      h.standing n l ((congrArg (·[n]?) hheld).symm.trans hl) (hlive.still rfl)

/-- The dead hold nothing, not even what they were about to renew. -/
theorem LeaseInv.crash (p : π) : LeaseInv proc { w with crashed := p :: w.crashed } := by
  have hmono : w.crashed ⊆ p :: w.crashed := List.subset_cons_self p _
  refine h.change rfl (List.Subset.refl _) (fun _ hj => hj.before hmono rfl) (fun j _ => h.dir j)
    h.renewing fun n l hl hlive => ?_
  obtain ⟨cur, hfile, hid, hcur | ⟨j, s, hj, hs, hn⟩⟩ :=
    h.standing n l hl (hlive.before hmono (Int.le_refl _))
  · exact ⟨cur, hfile, hid, .inl hcur⟩
  refine ⟨cur, hfile, hid, .inr ⟨j, s, fun hdead => ?_, hs, hn⟩⟩
  -- the thread that renews belongs to the process of the lease
  obtain ⟨l', hl', hproc⟩ := h.renewing j s n hs hn
  obtain rfl : l = l' := Option.some.inj (hl.symm.trans hl')
  exact hlive.alive (hproc ▸ hdead)

theorem LeaseInv.removeStale (hdead : ∀ j, w.inside j ≠ none → proc j ∈ w.crashed) :
    LeaseInv proc { w with lockDir := none } :=
  h.change rfl (List.Subset.refl _) (fun _ hj => hj.still rfl)
    (fun j _ hj => absurd (hdead j hj.inside) hj.alive) h.renewing
    fun n l hl hlive => h.standing n l hl (hlive.still rfl)

theorem LeaseInv.newID (id : String) : LeaseInv proc { w with ids := id :: w.ids } :=
  h.change rfl (List.subset_cons_self id _) (fun _ hj => hj.still rfl) (fun j _ => h.dir j) h.renewing
    fun n l hl hlive => h.standing n l hl (hlive.still rfl)

/-- Nobody holds a lease whose file is not there. -/
theorem LeaseInv.linked (habsent : w.file = .absent) (record : Record) :
    LeaseInv proc { w with file := .record record } := by
  refine h.change rfl (List.Subset.refl _) (fun _ hj => hj.still rfl) (fun j _ => h.dir j) h.renewing
    fun n l hl hlive => ?_
  obtain ⟨cur, hfile, -⟩ := h.standing n l hl (hlive.still rfl)
  rw [habsent] at hfile
  cases hfile

/-- While the only thread inside is renewing nothing, the file is the record of whoever holds the
lease. -/
theorem LeaseInv.file_of_live (halive : proc i ∉ w.crashed) (hsettled : Settled i w)
    (hl : l ∈ w.leases) (hlive : Live w l) : w.file = .record l.record := by
  obtain ⟨n, hl⟩ := List.mem_iff_getElem?.mp hl
  obtain ⟨s₀, hs₀, hn₀⟩ := hsettled
  obtain ⟨cur, hfile, -, rfl | ⟨j, s, hj, hs, hn⟩⟩ := h.standing n l hl hlive
  · exact hfile
  have hji : j = i := h.alone j i ⟨hj, hs ▸ Option.some_ne_none s⟩
    ⟨halive, hs₀ ▸ Option.some_ne_none s₀⟩
  rw [hji, hs₀] at hs
  cases hs
  rw [hn₀] at hn
  cases hn

/-- A challenger that reads its own record back holds the lease. -/
theorem LeaseInv.held (hfile : w.file = .record record) (hid : record.instanceID ∈ w.ids)
    (hnew : ∀ l ∈ w.leases, l.record.instanceID ≠ record.instanceID) :
    LeaseInv proc { w with handles := w.handles ++ [⟨proc i, record, false, none⟩] } := by
  have hleases : World.leases { w with handles := w.handles ++ [⟨proc i, record, false, none⟩] } =
      w.leases ++ [⟨proc i, record, false⟩] := List.map_append
  -- an old lease at its old place, or the new one at the end
  have hcases : ∀ n l, (w.leases ++ [⟨proc i, record, false⟩])[n]? = some l →
      w.leases[n]? = some l ∨ n = w.leases.length ∧ l = ⟨proc i, record, false⟩ := by
    intro n l hl
    rcases Nat.lt_trichotomy n w.leases.length with hlt | heq | hgt
    · exact .inl (List.getElem?_append_left hlt ▸ hl)
    · subst heq
      simp only [List.getElem?_concat_length, Option.some.injEq] at hl
      exact .inr ⟨rfl, hl.symm⟩
    · rw [List.getElem?_eq_none (by simp; omega)] at hl
      cases hl
  refine ⟨fun j k hj hk => h.alone j k (hj.still rfl) (hk.still rfl),
    fun j hj => h.dir j (hj.still rfl), ?_, ?_, ?_, ?_⟩
  · rw [hleases]
    intro l hl
    rcases List.mem_append.mp hl with hl | hl
    · exact h.known l hl
    · cases List.mem_singleton.mp hl
      exact hid
  · rw [hleases]
    intro n m l l' hl hl' hsame
    rcases hcases n l hl with hl | ⟨rfl, rfl⟩ <;> rcases hcases m l' hl' with hl' | ⟨rfl, rfl⟩
    · exact h.unique n m l l' hl hl' hsame
    · exact absurd hsame (hnew l (List.mem_of_getElem? hl))
    · exact absurd hsame.symm (hnew l' (List.mem_of_getElem? hl'))
    · rfl
  · rw [hleases]
    intro j s n hs hn
    obtain ⟨l, hl, hproc⟩ := h.renewing j s n hs hn
    have hlt : n < w.leases.length := (List.getElem?_eq_some_iff.mp hl).1
    exact ⟨l, (List.getElem?_append_left hlt).trans hl, hproc⟩
  · rw [hleases]
    intro n l hl hlive
    rcases hcases n l hl with hl | ⟨rfl, rfl⟩
    · exact h.standing n l hl (hlive.still rfl)
    · exact ⟨record, hfile, rfl, .inl rfl⟩

theorem LeaseInv.removed {n : Nat} (hmine : Mine proc i n w) :
    LeaseInv proc ({ w with file := .absent }.modifyHandle n fun hd => { hd with released := true }) := by
  refine h.change (keys_modify n _ fun _ => ⟨rfl, rfl⟩) (List.Subset.refl _) (fun _ hj => hj.still rfl)
    (fun j _ => h.dir j) h.renewing fun m l hl hlive => ?_
  rw [held_modify n _ (fun l => { l with released := true }) fun _ => rfl] at hl
  obtain ⟨l₀, hl₀, ⟨-, rfl⟩ | ⟨hne, rfl⟩⟩ := lease_of_modify hl
  · cases hlive.kept
  -- the file was that of the released lease
  obtain ⟨cur, hfile, hid, -⟩ := h.standing m l hl₀ (hlive.still rfl)
  obtain ⟨l', cur', hl', -, hfile', hid'⟩ := hmine
  rw [hfile] at hfile'
  cases hfile'
  exact absurd (h.unique n m l' l hl' hl₀ (hid'.symm.trans hid)) hne

omit h

variable [DecidableEq ι]

/-- Who is inside does not change when a renewal begins or ends. -/
theorem within_setRenewing : Within proc j (w.setRenewing i n) ↔ Within proc j w := by
  have hinside : (w.setRenewing i n).inside j ≠ none ↔ w.inside j ≠ none := by
    unfold World.setRenewing
    by_cases hj : j = i
    · subst hj
      simp
    · simp [Function.update_of_ne hj]
  exact ⟨fun hj => ⟨hj.alive, hinside.mp hj.inside⟩, fun hj => ⟨hj.alive, hinside.mpr hj.inside⟩⟩

theorem inside_setRenewing {s : Inside} (hs : (w.setRenewing i n).inside j = some s) :
    (j = i ∧ s.renewing = n) ∨ (j ≠ i ∧ w.inside j = some s) := by
  unfold World.setRenewing at hs
  by_cases hj : j = i
  · subst hj
    simp only [Function.update_self, Option.map_eq_some_iff] at hs
    obtain ⟨s', -, rfl⟩ := hs
    exact .inl ⟨rfl, rfl⟩
  · exact .inr ⟨hj, (Function.update_of_ne hj _ _).symm.trans hs⟩

theorem renewing_setRenewing {s : Inside} (hs : w.inside i = some s) :
    (w.setRenewing i n).inside i = some { s with renewing := n } := by
  unfold World.setRenewing
  rw [hs]
  exact Function.update_self _ _ _

include h

/-- While the directory is not there, no live thread is inside. -/
theorem LeaseInv.enter (hfree : w.lockDir = none) (bound : Int) :
    LeaseInv proc (w.enter i bound) := by
  have hnobody : ∀ j, ¬ Within proc j w := fun j hj => h.dir j hj hfree
  have honly : ∀ j, Within proc j (w.enter i bound) → j = i := by
    intro j hj
    by_contra hne
    refine hnobody j ⟨hj.alive, ?_⟩
    have hinside : Function.update w.inside i (some ⟨w.clock, bound, none⟩) j ≠ none := hj.inside
    rwa [Function.update_of_ne hne] at hinside
  refine ⟨fun j k hj hk => (honly j hj).trans (honly k hk).symm, fun _ _ => Option.some_ne_none _,
    h.known, h.unique, fun j s n hs hn => ?_, fun n l hl hlive => ?_⟩
  · by_cases hj : j = i
    · subst hj
      have hself : Function.update w.inside j (some ⟨w.clock, bound, none⟩) j = some s := hs
      rw [Function.update_self] at hself
      cases hself
      cases hn
    · exact h.renewing j s n ((Function.update_of_ne hj _ _).symm.trans hs) hn
  · obtain ⟨cur, hfile, hid, hcur | ⟨j, s, hj, hs, hn⟩⟩ :=
      h.standing n l hl (hlive.still rfl)
    · exact ⟨cur, hfile, hid, .inl hcur⟩
    · exact absurd ⟨hj, hs ▸ Option.some_ne_none s⟩ (hnobody j)

/-- The lock is left with every renewal settled. -/
theorem LeaseInv.leave (halive : proc i ∉ w.crashed) (hsettled : Settled i w)
    (removed : Bool) : LeaseInv proc (w.leave i removed) := by
  obtain ⟨s₀, hs₀, hn₀⟩ := hsettled
  have hmine : Within proc i w := ⟨halive, hs₀ ▸ Option.some_ne_none s₀⟩
  have hother : ∀ j s, (w.leave i removed).inside j = some s → j ≠ i ∧ w.inside j = some s := by
    intro j s hs
    have hs : Function.update w.inside i none j = some s := hs
    by_cases hj : j = i
    · rw [hj, Function.update_self] at hs
      cases hs
    · rw [Function.update_of_ne hj] at hs
      exact ⟨hj, hs⟩
  -- the thread was the only one inside
  have hnobody : ∀ j, ¬ Within proc j (w.leave i removed) := by
    intro j hj
    obtain ⟨s, hs⟩ := Option.ne_none_iff_exists'.mp hj.inside
    obtain ⟨hne, hs⟩ := hother j s hs
    exact hne (h.alone j i ⟨hj.alive, hs ▸ Option.some_ne_none s⟩ hmine)
  refine h.change rfl (List.Subset.refl _) (fun j hj => absurd hj (hnobody j))
    (fun j hj => absurd hj (hnobody j)) (fun j s n hs hn => h.renewing j s n (hother j s hs).2 hn)
    fun n l hl hlive => ?_
  have hfile := h.file_of_live halive ⟨s₀, hs₀, hn₀⟩ (List.mem_of_getElem? hl) (hlive.still rfl)
  exact ⟨l.record, hfile, rfl, .inl rfl⟩

theorem LeaseInv.renamed (hrecord : ∀ l ∈ w.leases, Live w l → l.record = record) :
    LeaseInv proc ({ w with file := .record record }.setRenewing i none) := by
  refine h.change rfl (List.Subset.refl _) (fun j hj => (within_setRenewing.mp hj).still rfl)
    (fun j _ => h.dir j) (fun j s n hs hn => ?_) fun n l hl hlive => ?_
  · obtain ⟨-, hnone⟩ | ⟨-, hs⟩ := inside_setRenewing hs
    · rw [hnone] at hn
      cases hn
    · exact h.renewing j s n hs hn
  · have hsame := hrecord l (List.mem_of_getElem? hl) (hlive.still rfl)
    exact ⟨record, rfl, by rw [hsame], .inl hsame.symm⟩

/-- A renewal is stamped on the handle before it is in the file. -/
theorem LeaseInv.renewedAt (halive : proc i ∉ w.crashed)
    (hsettled : Settled i w) {n : Nat} (hmine : Mine proc i n w) (now : Int) :
    LeaseInv proc ((w.modifyHandle n fun hd =>
      { hd with record := { hd.record with renewedAt := now } }).setRenewing i (some n)) := by
  obtain ⟨s₀, hs₀, hn₀⟩ := hsettled
  refine h.change (keys_modify n _ fun _ => ⟨rfl, rfl⟩) (List.Subset.refl _)
    (fun j hj => (within_setRenewing.mp hj).still rfl) (fun j _ => h.dir j) (fun j s m hs hm => ?_)
    fun m l hl hlive => ?_
  · obtain ⟨rfl, hnew⟩ | ⟨-, hs⟩ := inside_setRenewing hs
    · rw [hnew] at hm
      cases hm
      obtain ⟨l, -, hl, hproc, -⟩ := hmine
      exact ⟨l, hl, hproc⟩
    · exact h.renewing j s m hs hm
  · have hself := renewing_setRenewing (w := w.modifyHandle n fun hd =>
      { hd with record := { hd.record with renewedAt := now } }) (n := some n) hs₀
    have hl := (congrArg (·[m]?) (held_modify (w := w) n _
      (fun l => { l with record := { l.record with renewedAt := now } }) fun _ => rfl)).symm.trans hl
    obtain ⟨l₀, hl₀, ⟨rfl, rfl⟩ | ⟨hne, rfl⟩⟩ := lease_of_modify hl
    · obtain ⟨l', cur, hl', -, hfile, hid⟩ := hmine
      rw [hl₀] at hl'
      cases hl'
      exact ⟨cur, hfile, hid, .inr ⟨i, _, halive, hself, rfl⟩⟩
    · have hfile := h.file_of_live halive ⟨s₀, hs₀, hn₀⟩ (List.mem_of_getElem? hl₀) (hlive.still rfl)
      exact ⟨l.record, hfile, rfl, .inl rfl⟩

omit h

variable [DecidableEq π]

variable (proc) in
def leaseContract : Contract ι (World ι π) (Op π) Op.Res where
  sem := sem proc
  ok := Careful proc
  inv := LeaseInv proc
  guar := Allowed proc

theorem act_of_move (hm : (leaseContract proc).Move i w o r w') :
    proc i ∉ w.crashed ∧ act proc i w o r = some w' :=
  alive_of_sem hm.2.2.2

/-- **Every step keeps the invariant.** -/
theorem leaseContract_preserved : (leaseContract proc).Preserved := by
  intro i w o r w' hm
  have hinv : LeaseInv proc w := hm.1
  have hok : Careful proc i w o r := hm.2.2.1
  obtain ⟨halive, hact⟩ := act_of_move hm
  have hgranted : Granted proc i w o := hm.2.1 halive
  cases effect_of_act hact with
  | nothing => exact hinv
  | tick t ht => exact hinv.tick ht
  | crash p r => exact hinv.crash p
  | made bound hfree => exact hinv.enter hfree bound
  | removeStale => exact hinv.removeStale hok.1
  | unlock removed => exact hinv.leave halive hgranted removed
  | newID id hnew => exact hinv.newID id
  | linked record habsent => exact hinv.linked habsent record
  | renamed record => exact hinv.renamed hgranted.2
  | held record => exact hinv.held hgranted.2.1 hgranted.2.2.1 hgranted.2.2.2
  | mutex o r hheld => exact hinv.mutex hheld
  | renewedAt h now r => exact hinv.renewedAt halive hgranted.1 hgranted.2 now
  | removed h => exact hinv.removed hgranted.2

end Contract

/-! ## 4. The programs keep to it -/

section

variable {proc : ι → π} {w : World ι π} {R : World ι π → Prop}

/-- What others leave alone while a live thread is inside. -/
structure Kept (w w' : World ι π) : Prop where
  file : w'.file = w.file
  leases : w'.leases = w.leases
  ids : w'.ids = w.ids
  clock : w.clock ≤ w'.clock

/-- A fact that can be relied on inside the lock. -/
def Guarded (P : World ι π → Prop) : Prop := ∀ w w', Kept w w' → P w → P w'

theorem Guarded.and (hP : Guarded P) (hR : Guarded R) : Guarded fun w => P w ∧ R w :=
  fun w w' hkept h => ⟨hP w w' hkept h.1, hR w w' hkept h.2⟩

theorem guarded_true : Guarded fun _ : World ι π => True := fun _ _ _ _ => trivial

variable (proc) in
/-- What a thread in the lock knows, unless it is dead; `n` is the handle it is renewing. -/
def Known (i : ι) (n : Option Nat) (P : World ι π → Prop) (w : World ι π) : Prop :=
  proc i ∉ w.crashed → (∃ s, w.inside i = some s ∧ s.renewing = n) ∧ P w

theorem Known.mono (h : Known proc i n P w) (hPR : P w → R w) : Known proc i n R w :=
  fun halive => ⟨(h halive).1, hPR (h halive).2⟩

theorem Known.within (h : Known proc i n P w) (halive : proc i ∉ w.crashed) : Within proc i w := by
  obtain ⟨s, hs, -⟩ := (h halive).1
  exact ⟨halive, hs ▸ Option.some_ne_none s⟩

/-- What the answer of a read says of the file. -/
def Read.Tells (challenge : Bool) : Read → World ι π → Prop
  | .record cur, w => w.file = .record cur
  | .notExist, w => ∀ r, w.file ≠ .record r
  | .failed _, w => challenge = true → ∀ r, w.file ≠ .record r

/-- The handle has this record. -/
def Carries (h : Nat) (record : Record) (w : World ι π) : Prop :=
  ∃ l : Held π, w.leases[h]? = some l ∧ l.record = record

theorem guarded_carries (h : Nat) (record : Record) : Guarded (Carries (ι := ι) (π := π) h record) := by
  intro w w' hkept hcarried
  obtain ⟨l, hl, hrecord⟩ := hcarried
  exact ⟨l, hkept.leases ▸ hl, hrecord⟩

/-- No handle has the id. -/
def Unclaimed (id : String) (w : World ι π) : Prop := ∀ l ∈ w.leases, l.record.instanceID ≠ id

theorem guarded_unclaimed (id : String) : Guarded (Unclaimed (ι := ι) (π := π) id) :=
  fun _ _ hkept h l hl => h l (hkept.leases ▸ hl)

/-- A fresh id is nobody's. -/
def Fresh (id : String) (w : World ι π) : Prop := id ∈ w.ids ∧ Unclaimed id w

/-- What a challenger knows once it has its record. -/
def Challenging (now : Int) (record : Record) (w : World ι π) : Prop :=
  now ≤ w.clock ∧ Fresh record.instanceID w

theorem guarded_challenging (now : Int) (record : Record) :
    Guarded (Challenging (ι := ι) (π := π) now record) := by
  intro w w' hkept h
  exact ⟨Int.le_trans h.1 hkept.clock, hkept.ids ▸ h.2.1, guarded_unclaimed _ w w' hkept h.2.2⟩

theorem guarded_file (file : LeaseFile) : Guarded fun w : World ι π => w.file = file :=
  fun _ _ hkept h => hkept.file.trans h

theorem guarded_owned (h : Nat) : Guarded (Owned proc i h) := by
  intro w w' hkept howned
  obtain ⟨l, hl, hproc⟩ := howned
  exact ⟨l, hkept.leases ▸ hl, hproc⟩

/-- A handle whose id stands in the file is the holder's. -/
theorem mine_of_carries {h : Nat} {cur : Record} (howned : Owned proc i h w)
    (hfile : w.file = .record cur) (hcarried : Carries h record w)
    (hid : cur.instanceID = record.instanceID) : Mine proc i h w := by
  obtain ⟨l, hl, hproc⟩ := howned
  obtain ⟨l', hl', hrecord⟩ := hcarried
  rw [hl] at hl'
  cases hl'
  exact ⟨l, cur, hl, hproc, hfile, hrecord ▸ hid⟩

theorem guarded_mine (h : Nat) : Guarded (Mine proc i h) := by
  intro w w' hkept hmine
  obtain ⟨l, cur, hl, hproc, hfile, hid⟩ := hmine
  exact ⟨l, cur, hkept.leases ▸ hl, hproc, hkept.file.trans hfile, hid⟩

theorem guarded_tells (challenge : Bool) (r : Read) :
    Guarded fun w : World ι π => r.Tells challenge w := by
  intro w w' hkept h
  cases r with
  | record cur => exact hkept.file.trans h
  | notExist => exact fun r hr => h r (hkept.file.symm.trans hr)
  | failed _ => exact fun hc r hr => h hc r (hkept.file.symm.trans hr)

/-- What stands in nobody's way has expired, by the file and so by the handle. -/
theorem not_live_of_standing (hinv : LeaseInv proc w) (halive : proc i ∉ w.crashed)
    (hsettled : Settled i w) {now : Int} (hnow : now ≤ w.clock) {read : Read}
    (htells : read.Tells true w) (hstanding : read.standing now = none) (hl : l ∈ w.leases) :
    ¬ Live w l := by
  intro hlive
  have hfile := hinv.file_of_live halive hsettled hl hlive
  cases read with
  | record cur =>
    have hcur : w.file = .record cur := htells
    rw [hfile] at hcur
    cases hcur
    have hstanding : (if l.record.expired now then none else some l.record) = none := hstanding
    by_cases hexpired : l.record.expired now
    · exact hlive.valid (Int.lt_of_lt_of_le hexpired hnow)
    · rw [if_neg hexpired] at hstanding
      cases hstanding
  | notExist => exact htells _ hfile
  | failed _ => exact htells rfl _ hfile

/-- A renewal that is under way is of the lease in the file, so nobody else holds it. -/
theorem sole_of_mine {h : Nat} (hinv : LeaseInv proc w) (hmine : Mine proc i h w)
    (hcarried : Carries h record w) (hl : l ∈ w.leases) (hlive : Live w l) : l.record = record := by
  obtain ⟨m, hl⟩ := List.mem_iff_getElem?.mp hl
  obtain ⟨cur, hfile, hid, -⟩ := hinv.standing m l hl hlive
  obtain ⟨l₀, cur', hl₀, -, hfile', hid'⟩ := hmine
  rw [hfile] at hfile'
  cases hfile'
  have hmh : m = h := hinv.unique m h l l₀ hl hl₀ (hid.symm.trans hid')
  obtain ⟨l₁, hl₁, hrecord⟩ := hcarried
  rw [← hmh, hl] at hl₁
  cases hl₁
  exact hrecord

variable [DecidableEq ι] [DecidableEq π]

/-- Others change neither what is kept nor who is inside. -/
theorem kept_of_other (hj : j ≠ i) (hm : (leaseContract proc).Move j w o r w')
    (hi : Within proc i w) : Kept w w' ∧ w'.inside i = w.inside i := by
  have hinv : LeaseInv proc w := hm.1
  obtain ⟨halive, hact⟩ := act_of_move hm
  have hgranted : Granted proc j w o := hm.2.1 halive
  have hout : w.inside j = none := by
    by_contra hinside
    exact hj (hinv.alone j i ⟨halive, hinside⟩ hi)
  have hsettled : ¬ Settled j w := by
    rintro ⟨s, hs, -⟩
    rw [hout] at hs
    cases hs
  cases effect_of_act hact with
  | nothing | crash _ _ | removeStale => exact ⟨⟨rfl, rfl, rfl, Int.le_refl _⟩, rfl⟩
  | tick t ht => exact ⟨⟨rfl, rfl, rfl, ht⟩, rfl⟩
  | made bound hfree => exact absurd hfree (hinv.dir i hi)
  | unlock _ | newID _ _ | linked _ _ => exact absurd hgranted hsettled
  | renamed record => exact absurd hout hgranted.1
  | mutex o r hheld => exact ⟨⟨rfl, hheld, rfl, Int.le_refl _⟩, rfl⟩
  | held _ | renewedAt _ _ _ | removed _ => exact absurd hgranted.1 hsettled

/-- The dead stay dead. -/
theorem crashed_mono {p : π} (hact : act proc j w o r = some w') (hp : p ∈ w.crashed) :
    p ∈ w'.crashed := by
  cases effect_of_act hact with
  | crash q r => exact List.mem_cons_of_mem q hp
  | _ => exact hp

/-- Inside the lock, nobody else changes what is known. -/
theorem stable_known (hP : Guarded P) : (leaseContract proc).Stable i (Known proc i n P) := by
  intro j w o r w' hj hm h halive'
  have hact := (act_of_move hm).2
  have halive : proc i ∉ w.crashed := fun hdead => halive' (crashed_mono hact hdead)
  obtain ⟨hkept, hinside⟩ := kept_of_other hj hm (h.within halive)
  exact ⟨hinside ▸ (h halive).1, hP w w' hkept (h halive).2⟩

/-- Inside the lock, and nothing else is known. -/
abbrev Entered (proc : ι → π) (i : ι) : World ι π → Prop := Known proc i none fun _ => True

/-- From `P` the program of thread `i` ends in `Q`, whatever the other threads do. -/
abbrev Proves (proc : ι → π) (i : ι) {α : Type} (P : World ι π → Prop) (p : LeaseProg π α)
    (Q : α → World ι π → Prop) : Prop :=
  (leaseContract proc).Outline i P p Q

/-- Whatever `P` says, nobody but the one with this record holds the lease. -/
def Sole (proc : ι → π) (i : ι) (n : Option Nat) (P : World ι π → Prop) (record : Record) : Prop :=
  ∀ w, LeaseInv proc w → proc i ∉ w.crashed → (∃ s, w.inside i = some s ∧ s.renewing = n) → P w →
    ∀ l ∈ w.leases, Live w l → l.record = record

section Rules

variable {α : Type} {Q : α → World ι π → Prop} {h : Nat}

theorem quit_known {a : α} : Proves proc i (Known proc i none P) (pure a) fun _ => Entered proc i :=
  .ret fun _ _ h => h.mono fun _ => trivial

/-- A step that looks at the world, and what is learned from its answer. -/
theorem look (hlook : ∀ w r w', act proc i w o r = some w' → w' = w)
    (hgranted : ∀ w, Granted proc i w o) (hP : Guarded P) {R : o.Res → World ι π → Prop}
    (hR : ∀ r, Guarded (R r))
    (hlearn : ∀ w r, Careful proc i w o r → act proc i w o r = some w → R r w)
    {k : o.Res → LeaseProg π α}
    (hk : ∀ r, Proves proc i (Known proc i n fun w => P w ∧ R r w) (k r) Q) :
    Proves proc i (Known proc i n P) (issue o >>= k) Q := by
  refine .learn _ (fun w _ _ _ => hgranted w) (fun r => stable_known (hP.and (hR r))) ?_ hk
  intro w r w' h hm
  obtain ⟨-, hact⟩ := act_of_move hm
  have hsame := hlook w r w' hact
  subst hsame
  exact h.mono fun hp => ⟨hp, hlearn w' r hm.2.2.1 hact⟩

theorem now_known (hP : Guarded P) {k : Int → LeaseProg π α}
    (hk : ∀ t : Int, Proves proc i (Known proc i n fun w => P w ∧ t ≤ w.clock) (k t) Q) :
    Proves proc i (Known proc i n P) (issue .now >>= k) Q := by
  refine look (o := .now) ?_ (fun _ => trivial) hP ?_ ?_ hk
  · intro w r w' hact
    exact (of_guard hact).2.symm
  · exact fun t w w' hkept h => Int.le_trans h hkept.clock
  intro w t _ hact
  exact Int.le_of_eq (of_guard hact).1

/-- A challenger that cannot read the lease knows that there is none. -/
theorem read_known (challenge : Bool) (hP : Guarded P) {k : Read → LeaseProg π α}
    (hk : ∀ r : Read, Proves proc i (Known proc i n fun w => P w ∧ r.Tells challenge w) (k r) Q) :
    Proves proc i (Known proc i n P) (issue (.readRecord challenge) >>= k) Q := by
  refine look (o := .readRecord challenge) ?_ (fun _ => trivial) hP ?_ ?_ hk
  · intro w r w' hact
    cases r with
    | record _ | notExist => exact (of_guard hact).2.symm
    | failed e => exact (Option.some.inj hact).symm
  · exact guarded_tells challenge
  intro w r hok hact
  cases r with
  | record cur => exact (of_guard hact).1
  | notExist =>
    have habsent : w.file = .absent := (of_guard hact).1
    intro r hr
    rw [habsent] at hr
    cases hr
  | failed e =>
    rintro rfl
    exact hok.2

theorem handleRecord_known (hP : Guarded P) {k : Record → LeaseProg π α}
    (hk : ∀ r, Proves proc i (Known proc i n fun w => P w ∧ Carries h r w) (k r) Q) :
    Proves proc i (Known proc i n P) (issue (.handleRecord h) >>= k) Q := by
  refine look (o := .handleRecord h) ?_ (fun _ => trivial) hP
    (fun r => guarded_carries h r) ?_ hk
  · intro w r w' hact
    exact (of_guard hact).2.symm
  intro w r _ hact
  obtain ⟨hd, hhd, hrecord⟩ := Option.map_eq_some_iff.mp (of_guard hact).1
  refine ⟨hd.held, ?_, hrecord⟩
  unfold World.leases
  rw [List.getElem?_map, hhd]
  rfl

variable {k : Option String → LeaseProg π α} {now : Int}

/-- Writing the new file fails only for a record that no handle has. -/
theorem writeTemp_known (hP : Guarded P) (hk : ∀ r : Option String, Proves proc i
      (Known proc i n fun w => P w ∧ (r ≠ none → Unclaimed record.instanceID w)) (k r) Q) :
    Proves proc i (Known proc i n P) (issue (.writeTemp record) >>= k) Q := by
  refine look (o := .writeTemp record)
    ?_ (fun _ => trivial)
    hP ?_ ?_ hk
  · exact fun w r w' hact => (Option.some.inj hact).symm
  · exact fun r w w' hkept h hr => guarded_unclaimed _ w w' hkept (h hr)
  intro w r hok _ hr
  cases r with
  | none => exact absurd rfl hr
  | some e => exact hok.2

theorem newID_known {k : String → LeaseProg π α}
    (hk : ∀ id, Proves proc i (Known proc i none fun w => now ≤ w.clock ∧ Fresh id w) (k id) Q) :
    Proves proc i (Known proc i none fun w => now ≤ w.clock) (issue .newInstanceID >>= k) Q := by
  refine .learn _ (fun w _ h halive => (h halive).1) (fun id => stable_known ?_) ?_ hk
  · intro w w' hkept h
    exact ⟨Int.le_trans h.1 hkept.clock, hkept.ids ▸ h.2.1, guarded_unclaimed id w w' hkept h.2.2⟩
  · intro w id w' h hm halive
    have hinv : LeaseInv proc w := hm.1
    obtain ⟨-, hact⟩ := act_of_move hm
    obtain ⟨hnew, rfl⟩ := of_guard_not hact
    refine ⟨(h halive).1, (h halive).2, List.mem_cons_self, fun l hl hid => hnew ?_⟩
    exact hid ▸ hinv.known l hl

/-- The file is made where there was none. -/
theorem link_known {k : Made → LeaseProg π α}
    (hk : ∀ r : Made, Proves proc i (Known proc i none fun w =>
      Challenging now record w ∧ (r = .made → w.file = .record record)) (k r) Q) :
    Proves proc i (Known proc i none (Challenging now record)) (issue (.link record) >>= k) Q := by
  refine .learn _ (fun w _ h halive => (h halive).1) (fun r => stable_known ?_) ?_ hk
  · refine (guarded_challenging now record).and fun w w' hkept h hr => ?_
    exact guarded_file _ w w' hkept (h hr)
  intro w r w' h hm halive
  obtain ⟨-, hact⟩ := act_of_move hm
  cases r with
  | made =>
    obtain ⟨-, rfl⟩ := of_guard hact
    exact ⟨(h halive).1, (h halive).2, fun _ => rfl⟩
  | «exists» =>
    obtain ⟨-, rfl⟩ := of_guard_not hact
    exact ⟨(h halive).1, (h halive).2, nofun⟩
  | failed e =>
    cases hact
    exact ⟨(h halive).1, (h halive).2, nofun⟩

/-- The new handle, of a record that is in the file. -/
theorem hold_known {k : Nat → LeaseProg π α} (hk : ∀ h, Proves proc i (Entered proc i) (k h) Q) :
    Proves proc i (Known proc i none fun w => Challenging now record w ∧ w.file = .record record)
      (issue (.hold record) >>= k) Q := by
  refine .learn _ ?_ (fun _ => stable_known guarded_true) ?_ hk
  · intro w _ h halive
    obtain ⟨hsettled, ⟨-, hid, hnew⟩, hfile⟩ := h halive
    exact ⟨hsettled, hfile, hid, hnew⟩
  · intro w r w' h hm halive
    obtain ⟨-, hact⟩ := act_of_move hm
    obtain ⟨-, rfl⟩ := of_guard hact
    exact ⟨(h halive).1, trivial⟩

/-- The file is replaced.  That nobody else holds the lease is left to show. -/
theorem rename_known (hP : Guarded P) (hsole : Sole proc i n P record)
    {R : World ι π → Prop} (hR : Guarded R)
    (hkeep : ∀ w, P w → R ({ w with file := .record record }.setRenewing i none))
    (hdone : Proves proc i (Known proc i none R) (k none) Q)
    (hfail : ∀ e, Proves proc i
      (Known proc i n fun w => P w ∧ Unclaimed record.instanceID w) (k (some e)) Q) :
    Proves proc i (Known proc i n P) (issue (.rename record) >>= k) Q := by
  refine .op (fun w hinv h halive => ?_) fun r => ?_
  · obtain ⟨hinside, hp⟩ := h halive
    exact ⟨(h.within halive).inside, hsole w hinv halive hinside hp⟩
  cases r with
  | none =>
    refine ⟨_, stable_known hR, fun w w' h hm _ => ?_, hdone⟩
    obtain ⟨halive, hact⟩ := act_of_move hm
    obtain ⟨⟨s, hs, -⟩, hp⟩ := h halive
    cases hact
    exact ⟨⟨_, renewing_setRenewing hs, rfl⟩, hkeep w hp⟩
  | some e =>
    refine ⟨_, stable_known (hP.and (guarded_unclaimed _)), fun w w' h hm => ?_, hfail e⟩
    have hok : Careful proc i w (.rename record) (some e) := hm.2.2.1
    cases (act_of_move hm).2
    exact h.mono fun hp => ⟨hp, hok.2⟩

/-- The record in memory is ahead of the file now. -/
theorem renewedAt_known {k : Unit → LeaseProg π α}
    (hk : Proves proc i (Known proc i (some h) (Mine proc i h)) (k ()) Q) :
    Proves proc i (Known proc i none (Mine proc i h)) (issue (.setRenewedAt h now) >>= k) Q := by
  refine .learn _ (fun w _ hw halive => ⟨(hw halive).1, (hw halive).2⟩)
    (fun _ => stable_known (guarded_mine h)) ?_ fun _ => hk
  intro w r w' hw hm halive'
  obtain ⟨halive, hact⟩ := act_of_move hm
  obtain ⟨⟨s, hs, -⟩, l, cur, hl, hproc, hfile, hid⟩ := hw halive
  cases hact
  refine ⟨⟨_, renewing_setRenewing hs, rfl⟩, ?_⟩
  have hleases := held_modify (w := w) h
    (fun hd => { hd with record := { hd.record with renewedAt := now } })
    (fun l => { l with record := { l.record with renewedAt := now } }) fun _ => rfl
  refine ⟨{ l with record := { l.record with renewedAt := now } }, cur, ?_, hproc, hfile, hid⟩
  change (w.modifyHandle h fun hd =>
    { hd with record := { hd.record with renewedAt := now } }).leases[h]? = _
  rw [hleases, List.getElem?_modify, hl]
  simp

theorem removeFile_known (hk : ∀ r, Proves proc i (Entered proc i) (k r) Q) :
    Proves proc i (Known proc i none (Mine proc i h)) (issue (.removeFile h) >>= k) Q := by
  refine .learn _ (fun w _ hw halive => ⟨(hw halive).1, (hw halive).2⟩)
    (fun _ => stable_known guarded_true) ?_ hk
  intro w r w' hw hm halive'
  obtain ⟨halive, hact⟩ := act_of_move hm
  cases r with
  | none =>
    obtain ⟨-, rfl⟩ := of_guard_not hact
    exact ⟨(hw halive).1, trivial⟩
  | some e =>
    cases hact
    exact ⟨(hw halive).1, trivial⟩

/-- A step outside the lock, by a thread that knows nothing. -/
theorem step_outside (ho : ∀ w, Granted proc i w o) {k : o.Res → LeaseProg π α}
    (hk : ∀ r, Proves proc i (fun _ => True) (k r) Q) :
    Proves proc i (fun _ => True) (issue o >>= k) Q :=
  Outline.keep (fun w _ _ _ => ho w) (fun _ _ _ _ _ _ _ _ => trivial) (fun _ _ _ _ _ => trivial) hk

end Rules

variable (tx : Texts)

/-- Whoever gets the lock is inside it. -/
theorem pollLock_outline (bound : Int) (rounds : Nat) :
    Proves proc i (fun _ => True) (pollLock tx bound rounds)
      fun r w => r = .ok () → Entered proc i w := by
  induction rounds with
  | zero => exact .ret nofun
  | succ rounds ih =>
    refine .op (fun _ _ _ _ => trivial) fun r => ?_
    cases r with
    | made =>
      refine ⟨_, stable_known guarded_true, fun w w' _ hm => ?_, .ret fun w _ h _ => h⟩
      obtain ⟨-, rfl⟩ := of_guard (act_of_move hm).2
      exact fun _ => ⟨⟨_, Function.update_self _ _ _, rfl⟩, trivial⟩
    | failed e => exact Outline.forget (.ret nofun)
    | «exists» =>
      refine Outline.forget (step_outside (o := .statLock) (fun _ => trivial) fun r => ?_)
      cases r with
      | failed e => exact .ret nofun
      | notExist => exact ih
      | info modTime =>
        refine step_outside (o := .now) (fun _ => trivial) fun now => ?_
        split
        · exact step_outside (o := .removeStale) (fun _ => trivial) fun _ => ih
        refine step_outside (o := .poll) (fun _ => trivial) fun r => ?_
        cases r with
        | some e => exact .ret nofun
        | none => exact ih

variable (rounds : Nat)

/-- Without an error the lock has been entered. -/
theorem acquireLeaseLock_outline (ttl : Int) :
    Proves proc i (fun _ => True) (acquireLeaseLock tx rounds ttl)
      fun r w => r = .ok () → Entered proc i w := by
  refine step_outside (o := .ctxErr) (fun _ => trivial) fun r => ?_
  cases r with
  | some e => exact .ret nofun
  | none => exact pollLock_outline tx (staleAfter ttl) rounds

theorem underLock_outline {α : Type} {φ : World ι π → Prop} {work : LeaseProg π α}
    (hwork : Proves proc i φ work fun _ => Entered proc i) :
    Proves proc i φ (underLock work) fun _ _ => True := by
  refine .bind (fun r => ?_) hwork
  exact .learn (fun _ _ => True) (fun w _ h halive => (h halive).1)
    (fun _ _ _ _ _ _ _ _ _ => trivial) (fun _ _ _ _ _ => trivial) fun _ => .done

/-! ### The three calls -/

/-- The record is read back before the lease counts as held. -/
theorem confirm_outline {now : Int} (record : Record) :
    Proves proc i (Known proc i none fun w => Challenging now record w ∧ w.file = .record record)
      (confirm tx record) fun _ => Entered proc i := by
  refine read_known false ((guarded_challenging now record).and (guarded_file _)) fun r => ?_
  cases r with
  | notExist | failed _ => exact quit_known
  | record after =>
    refine .ite (fun _ => quit_known) fun _ => ?_
    exact .pre (fun w _ h => h.mono And.left) (hold_known fun h => .done)

/-- `writeRecord`: the file is replaced, or the record is that of no handle. -/
theorem writeRecord_outline (hP : Guarded P) (hsole : Sole proc i n P record)
    (hR : Guarded R) (hkeep : ∀ w, P w → R ({ w with file := .record record }.setRenewing i none)) :
    Proves proc i (Known proc i n P) (writeRecord record)
      fun r w => (r = none → Known proc i none R w) ∧
        (r ≠ none → Known proc i n (fun w => P w ∧ Unclaimed record.instanceID w) w) := by
  refine writeTemp_known hP fun r => ?_
  cases r with
  | some e =>
    refine .ret fun w _ h => ⟨nofun, fun _ => h.mono fun hp => ?_⟩
    exact ⟨hp.1, hp.2 (Option.some_ne_none e)⟩
  | none =>
    refine .pre (fun w _ h => h.mono And.left)
      (rename_known hP hsole hR hkeep ?_ fun e => ?_)
    · exact .ret fun w _ h => ⟨fun _ => h, fun hr => absurd rfl hr⟩
    · exact .ret fun w _ h => ⟨nofun, fun _ => h⟩

theorem claim_outline (ttl pid : Int) (host : String) (metadata : List (String × String)) :
    Proves proc i (Entered proc i) (claim tx ttl pid host metadata) fun _ => Entered proc i := by
  refine now_known guarded_true fun now => ?_
  refine .pre (fun w _ h => h.mono And.right) (newID_known fun id => ?_)
  generalize hrecord : (⟨id, pid, host, now, now, ttl, metadata⟩ : Record) = record
  have hid : record.instanceID = id := hrecord ▸ rfl
  have hcreate : Proves proc i (Known proc i none (Challenging now record))
      (tryCreate record) fun r => Known proc i none fun w =>
        Challenging now record w ∧ (r = .ok true → w.file = .record record) := by
    refine writeTemp_known (guarded_challenging now record) fun r => ?_
    cases r with
    | some e => exact .ret fun w _ h => h.mono fun hp => ⟨hp.1, nofun⟩
    | none =>
      refine .pre (fun w _ h => h.mono And.left) (link_known fun r => ?_)
      cases r with
      | made => exact .ret fun w _ h => h.mono fun hp => ⟨hp.1, fun _ => hp.2 rfl⟩
      | «exists» | failed _ => exact .ret fun w _ h => h.mono fun hp => ⟨hp.1, nofun⟩
  refine .bind (fun r => ?_) (hcreate.pre fun w _ h => h.mono fun hp => ⟨hp.1, hid ▸ hp.2⟩)
  cases r with
  | error e => exact quit_known
  | ok made =>
    cases made with
    | true =>
      exact .pre (fun w _ h => h.mono fun hp => ⟨hp.1, hp.2 rfl⟩) (hold_known fun h => .done)
    | false =>
      refine .pre (fun w _ h => h.mono And.left)
        (read_known true (guarded_challenging now record) fun read => ?_)
      cases hstanding : read.standing now with
      | some cur => exact quit_known
      | none =>
        have hsole : Sole proc i none (fun w => Challenging now record w ∧ read.Tells true w)
            record := by
          intro w hinv halive hsettled hp l hl hlive
          exact absurd hlive (not_live_of_standing hinv halive hsettled hp.1.1 hp.2 hstanding hl)
        refine .bind (fun r => ?_) (writeRecord_outline
          ((guarded_challenging now record).and (guarded_tells true read)) hsole
          ((guarded_challenging now record).and (guarded_file (.record record)))
          fun w hp => ⟨hp.1, rfl⟩)
        cases r with
        | some e =>
          exact .ret fun w _ h => (h.2 (Option.some_ne_none e)).mono fun _ => trivial
        | none => exact (confirm_outline tx record).pre fun w _ h => h.1 rfl

theorem acquireContext_outline (ttl pid : Int) (host : String) (metadata : List (String × String)) :
    Proves proc i (fun _ => True) (acquireContext tx rounds ttl pid host metadata)
      fun _ _ => True := by
  unfold acquireContext
  split
  · exact .done
  refine .bind (fun r => ?_) (acquireLeaseLock_outline tx rounds ttl)
  cases r with
  | error e => exact .ret fun _ _ _ => trivial
  | ok u => exact (underLock_outline (claim_outline tx ttl pid host metadata)).pre fun w _ h => h rfl

/-- Only the holder renews. -/
theorem extend_outline (h : Nat) :
    Proves proc i (Known proc i none (Owned proc i h)) (extend tx h) fun _ => Entered proc i := by
  refine read_known false (guarded_owned h) fun r => ?_
  cases r with
  | notExist | failed _ => exact quit_known
  | record cur =>
    have hP : Guarded fun w => Owned proc i h w ∧ w.file = .record cur :=
      (guarded_owned h).and (guarded_file _)
    refine handleRecord_known hP fun record => ?_
    split
    · exact quit_known
    next hid =>
    refine now_known (hP.and (guarded_carries h record)) fun now => ?_
    split
    · exact quit_known
    refine .pre (fun w _ hw => hw.mono fun hp =>
      mine_of_carries hp.1.1.1 hp.1.1.2 hp.1.2 (not_not.mp hid)) ?_
    refine now_known (guarded_mine h) fun renewedAt => ?_
    refine .pre (fun w _ hw => hw.mono And.left) (renewedAt_known ?_)
    refine handleRecord_known (guarded_mine h) fun own => ?_
    refine .bind (fun r => ?_) (writeRecord_outline ((guarded_mine h).and (guarded_carries h own))
      (fun w hinv _ _ hp l hl hlive => sole_of_mine hinv hp.1 hp.2 hl hlive)
      guarded_true fun _ _ => trivial)
    cases r with
    | none => exact .ret fun w _ hw => hw.1 rfl
    | some e =>
      -- a record that a handle has is written, so the thread is dead
      refine .ret fun w _ hw halive => ?_
      obtain ⟨-, ⟨-, l, hl, hrecord⟩, hunclaimed⟩ := hw.2 (Option.some_ne_none e) halive
      exact absurd (by rw [hrecord]) (hunclaimed l (List.mem_of_getElem? hl))

/-- Only the holder removes the file. -/
theorem relinquish_outline (h : Nat) :
    Proves proc i (Known proc i none (Owned proc i h)) (relinquish h) fun _ => Entered proc i := by
  refine read_known false (guarded_owned h) fun r => ?_
  cases r with
  | notExist | failed _ => exact quit_known
  | record cur =>
    have hP : Guarded fun w => Owned proc i h w ∧ w.file = .record cur :=
      (guarded_owned h).and (guarded_file _)
    refine handleRecord_known hP fun record => ?_
    split
    · exact quit_known
    next hid =>
    refine .pre (fun w _ hw => hw.mono fun hp =>
      mine_of_carries hp.1.1 hp.1.2 hp.2 (not_not.mp hid)) (removeFile_known fun r => ?_)
    cases r with
    | none | some _ => exact .done

/-- A handle keeps its process. -/
theorem persistent_owned (h : Nat) : (leaseContract proc).Persistent (Owned proc i h) := by
  intro j w o r w' hm howned
  refine howned.of_keys ?_
  cases effect_of_act (act_of_move hm).2 with
  | nothing | tick _ _ | crash _ _ | made _ _ | removeStale | unlock _ | newID _ _ | linked _ _
    | renamed _ => exact List.prefix_rfl
  | held record =>
    simp only [World.keys, World.leases, List.map_append]
    exact List.prefix_append _ _
  | mutex o r hheld =>
    unfold World.keys World.leases
    rw [hheld]
    exact List.prefix_rfl
  | renewedAt n _ _ | removed n =>
    refine ⟨[], (List.append_nil _).trans (keys_modify n _ ?_).symm⟩
    exact fun _ => ⟨rfl, rfl⟩

theorem withHandle_outline (h : Nat) (wrap : Err → Err) {work : LeaseProg π (Except Err Unit)}
    (hwork : Proves proc i (Known proc i none (Owned proc i h)) work fun _ => Entered proc i) :
    Proves proc i (fun _ => True) (withHandle tx rounds h wrap work) fun _ _ => True := by
  have howned : (leaseContract proc).Persistent (Owned proc i h) := persistent_owned h
  refine .op (fun _ _ _ _ => trivial) fun own => ?_
  cases own with
  | false => exact Outline.forget (.ret fun _ _ _ => trivial)
  | true =>
    refine ⟨_, howned.stable i, fun w w' _ hm => ?_, ?_⟩
    · obtain ⟨⟨-, howns⟩, rfl⟩ := of_guard (act_of_move hm).2
      obtain ⟨hd, hhd⟩ := Option.ne_none_iff_exists'.mp howns
      unfold World.owns at hhd
      rw [Option.filter_eq_some_iff] at hhd
      obtain ⟨hhd, hproc⟩ := hhd
      refine ⟨hd.held, ?_, of_decide_eq_true hproc⟩
      rw [held_of_mutex, World.leases, List.getElem?_map, hhd]
      rfl
    refine .keep (fun _ _ _ _ => trivial) (howned.stable i)
      (fun w r w' hm hw => howned i w _ r w' hm hw) fun record => ?_
    change Proves proc i _ ((acquireLeaseLock tx rounds record.ttl >>= _) >>= _) _
    refine .bind (R := fun _ _ => True) (fun r => ?_) ?_
    · exact step_outside (o := .unlockHandle h) (fun _ => trivial) fun _ => .done
    refine .bind (fun r => ?_) (Outline.pre (fun _ _ hw => ⟨trivial, hw⟩)
      ((acquireLeaseLock_outline tx rounds record.ttl).frame howned))
    cases r with
    | error e => exact .ret fun _ _ _ => trivial
    | ok u =>
      exact (underLock_outline hwork).pre fun w _ hw => (hw.1 rfl).mono fun _ => hw.2

/-! ### Processes -/

theorem action_outline (a : Action π) :
    Proves proc i (fun _ => True) (a.prog tx) fun _ _ => True := by
  cases a with
  | acquire rounds ttl pid host metadata =>
    exact .bind (fun _ => .done) (acquireContext_outline tx rounds ttl pid host metadata)
  | renew rounds h =>
    exact .bind (fun _ => .done) (withHandle_outline tx rounds h _ (extend_outline tx h))
  | release rounds h =>
    exact .bind (fun _ => .done) (withHandle_outline tx rounds h id (relinquish_outline h))
  | tick => exact step_outside (o := .tick) (fun _ => trivial) fun _ => .done
  | crash p => exact step_outside (o := .crash p) (fun _ => trivial) fun _ => .done

theorem process_outline : ∀ actions : List (Action π),
    Proves proc i (fun _ => True) (process tx actions) fun _ _ => True
  | [] => .done
  | a :: rest => Outline.bind (fun _ => process_outline rest) (action_outline tx a)

end

/-! ## 5. Every run -/

section

variable [DecidableEq ι] [DecidableEq π]

/-- Nobody has called anything yet.  A lease file and a directory may be there, from whenever. -/
structure Unused (w : World ι π) : Prop where
  handles : w.handles = []
  inside : ∀ i, w.inside i = none

omit [DecidableEq ι] [DecidableEq π] in
theorem Unused.inv {w : World ι π} (h : Unused w) (proc : ι → π) : LeaseInv proc w := by
  have hleases : w.leases = [] := by
    unfold World.leases
    rw [h.handles]
    rfl
  have hnobody : ∀ i, ¬ Within proc i w := fun i hi => hi.inside (h.inside i)
  refine ⟨fun i _ hi => absurd hi (hnobody i), fun i hi => absurd hi (hnobody i), ?_, ?_, ?_, ?_⟩
  · rw [hleases]
    exact nofun
  · rw [hleases]
    exact nofun
  · intro i s n hs
    rw [h.inside i] at hs
    cases hs
  · rw [hleases]
    exact nofun

/-- **One holder**, in every run in which nobody removes the directory of a live thread and the files
can be read and written. -/
theorem lease_held_once (tx : Texts) (proc : ι → π) (actions : ι → List (Action π)) {w : World ι π}
    (hw : Unused w) {c : Config ι (World ι π) (Op π) Op.Res Unit}
    (hr : Reach (sem proc) (Careful proc) ⟨w, fun i => process tx (actions i)⟩ c) {n m : Nat}
    {l l' : Held π} (hl : c.store.leases[n]? = some l) (hl' : c.store.leases[m]? = some l')
    (hlive : Live c.store l) (hlive' : Live c.store l') : n = m := by
  have hinv : LeaseInv proc c.store := (Contract.reach_outline leaseContract_preserved (hw.inv proc)
    (fun _ _ _ _ _ _ _ _ _ => trivial) (fun _ => trivial)
    (fun i => process_outline tx (actions i)) hr).1
  obtain ⟨cur, hfile, hid, -⟩ := hinv.standing n l hl hlive
  obtain ⟨cur', hfile', hid', -⟩ := hinv.standing m l' hl' hlive'
  rw [hfile] at hfile'
  cases hfile'
  exact hinv.unique n m l l' hl hl' (hid.symm.trans hid')

end

section TwoChallengers

inductive Party
  | world
  | victim
  | first
  | second
  deriving DecidableEq, Repr

def plainTexts : Texts := ⟨"owner.lease", id, toString⟩

def sixSeconds : Int := 6000 * millisecond

/-- A lease that ran out long ago. -/
def lapsed : Record := ⟨"old", 1, "host", -20, -20, 10, []⟩

/-- The record of a lease for a minute, taken after six seconds. -/
def minute (id : String) : Record := ⟨id, 2, "host", sixSeconds, sixSeconds, 60000 * millisecond, []⟩

def unused : World Party Party where
  clock := 0
  crashed := []
  lockDir := none
  file := .record lapsed
  handles := []
  inside _ := none
  ids := ["old"]

/-- One process dies while it is inside, and two others want the lease. -/
def challenge : Party → List (Action Party)
  | .world => [.crash .victim, .tick]
  | .victim | .first | .second => [.acquire 2 (60000 * millisecond) 2 "host" []]

/-- Nobody stays inside too long, and no file operation fails. -/
def Undisturbed : Lib.StepCond Party (World Party Party) (Op Party) Op.Res := fun i w o r =>
  Prompt id i w o r ∧ FilesWork i w o r

variable {w : World Party Party}

theorem only_victim (hworld : w.inside .world = none)
    (hfirst : w.inside .first = none) (hsecond : w.inside .second = none)
    (hdead : w.crashed = [.victim]) (j : Party) (hj : w.inside j ≠ none) : id j ∈ w.crashed := by
  cases j with
  | world => exact absurd hworld hj
  | first => exact absurd hfirst hj
  | second => exact absurd hsecond hj
  | victim => exact hdead ▸ List.mem_singleton_self _

/-- Time passes freely while only the dead process is inside. -/
theorem victim_is_dead (hworld : w.inside .world = none) (hfirst : w.inside .first = none)
    (hsecond : w.inside .second = none) (hdead : w.crashed = [.victim]) :
    Prompt id Party.world w .tick t := by
  intro j s hs halive
  exact absurd (only_victim hworld hfirst hsecond hdead j (hs ▸ Option.some_ne_none s)) halive

/-- Both find the directory of the dead process too old; the second removes that of the first. -/
theorem two_challengers_hold : ∃ c,
    Reach (sem id) Undisturbed ⟨unused, fun i => process plainTexts (challenge i)⟩ c ∧
    ∃ l l', c.store.leases[0]? = some l ∧ c.store.leases[1]? = some l' ∧
      Live c.store l ∧ Live c.store l' := by
  have run := (Reach.start : Reach (sem id) Undisturbed
      ⟨unused, fun i => process plainTexts (challenge i)⟩ _)
    |>.step .victim .ctxErr none
    |>.step .victim (.mkdirLock leaseLockStaleAfter) .made
    |>.step .world (.crash .victim) ()
    |>.step .world .tick (sixSeconds : Int) rfl ⟨victim_is_dead rfl rfl rfl rfl, trivial⟩
    |>.step .first .ctxErr none
    |>.step .first (.mkdirLock leaseLockStaleAfter) .exists
    |>.step .first .statLock (.info 0)
    |>.step .first .now sixSeconds
    |>.step .second .ctxErr none
    |>.step .second (.mkdirLock leaseLockStaleAfter) .exists
    |>.step .second .statLock (.info 0)
    |>.step .second .now sixSeconds
    |>.step .first .removeStale true
    |>.step .first (.mkdirLock leaseLockStaleAfter) .made
    |>.step .second .removeStale true
    |>.step .second (.mkdirLock leaseLockStaleAfter) .made
    |>.step .first .now sixSeconds
    |>.step .first .newInstanceID "a"
    |>.step .first (.writeTemp (minute "a")) none
    |>.step .first (.link (minute "a")) .exists
    |>.step .first (.readRecord true) (.record lapsed)
    |>.step .second .now sixSeconds
    |>.step .second .newInstanceID "b"
    |>.step .second (.writeTemp (minute "b")) none
    |>.step .second (.link (minute "b")) .exists
    |>.step .second (.readRecord true) (.record lapsed)
    |>.step .first (.writeTemp (minute "a")) none
    |>.step .first (.rename (minute "a")) none
    |>.step .first (.readRecord false) (.record (minute "a"))
    |>.step .first (.hold (minute "a")) (0 : Nat)
    |>.step .first .unlock true
    |>.step .second (.writeTemp (minute "b")) none
    |>.step .second (.rename (minute "b")) none
    |>.step .second (.readRecord false) (.record (minute "b"))
    |>.step .second (.hold (minute "b")) (1 : Nat)
    |>.step .second .unlock true
  exact ⟨_, run, _, _, rfl, rfl, ⟨by decide, rfl, by decide⟩, ⟨by decide, rfl, by decide⟩⟩

theorem live_first (hcrashed : w.crashed = [.victim])
    (hclock : w.clock = sixSeconds) : Live w ⟨.first, minute "a", false⟩ := by
  refine ⟨?_, rfl, ?_⟩
  · rw [hcrashed]
    decide
  · rw [hclock]
    decide

/-- One challenger removes the directory of the dead process and takes the lease over. -/
theorem lease_held_once_taken_over : ∃ c,
    Reach (sem id) (Careful id) ⟨unused, fun i => process plainTexts (challenge i)⟩ c ∧
    ∃ l, c.store.leases[0]? = some l ∧ Live c.store l ∧
      ∀ n l', c.store.leases[n]? = some l' → Live c.store l' → n = 0 := by
  have run := (Reach.start : Reach (sem id) (Careful id)
      ⟨unused, fun i => process plainTexts (challenge i)⟩ _)
    |>.step .victim .ctxErr none
    |>.step .victim (.mkdirLock leaseLockStaleAfter) .made
    |>.step .world (.crash .victim) ()
    |>.step .world .tick (sixSeconds : Int)
    |>.step .first .ctxErr none
    |>.step .first (.mkdirLock leaseLockStaleAfter) .exists
    |>.step .first .statLock (.info 0)
    |>.step .first .now sixSeconds
    |>.step .first .removeStale true rfl ⟨only_victim rfl rfl rfl rfl, trivial⟩
    |>.step .first (.mkdirLock leaseLockStaleAfter) .made
    |>.step .first .now sixSeconds
    |>.step .first .newInstanceID "a"
    |>.step .first (.writeTemp (minute "a")) none
    |>.step .first (.link (minute "a")) .exists
    |>.step .first (.readRecord true) (.record lapsed)
    |>.step .first (.writeTemp (minute "a")) none
    |>.step .first (.rename (minute "a")) none
    |>.step .first (.readRecord false) (.record (minute "a"))
    |>.step .first (.hold (minute "a")) (0 : Nat)
    |>.step .first .unlock true
  refine ⟨_, run, ⟨.first, minute "a", false⟩, rfl, live_first rfl rfl, fun n l' hl' hlive' => ?_⟩
  exact lease_held_once plainTexts id challenge ⟨rfl, fun _ => rfl⟩ run hl' rfl hlive'
    (live_first rfl rfl)

end TwoChallengers

end Contenox.Lease
