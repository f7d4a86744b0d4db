/-
# Threads over a shared store, and proof outlines for them

A thread is a sequential program whose only contact with the outside is a list of ATOMIC
OPERATIONS.  The store answers each one in a single step, and between two operations of
one thread any number of operations of the other threads may happen.  This is the setting
of every concurrency argument in the development: SQL statements, mutex sections and
channel operations are the atomic operations, and the environment (a clock, a person at a
card, a failing connection) speaks by choosing the RESULT of an operation.

Three things are fixed here, for an arbitrary set of operations.

* `Prog`: the programs, as trees.  A node names an operation and says how the program goes
  on for each result.  It is a monad, so that a program reads as the code it models.
* `Step` / `Reach`: one thread moves, the others stand.  The pool of threads is a function
  from an arbitrary index type, so no number of threads is assumed.
* `Outline`: a proof outline.  A thread carries a fact about the store that the OTHER
  threads cannot destroy.  Each of its operations must be
  allowed by a guarantee, and must turn the fact into the next one.  `reach_outline` is the
  only induction over interleavings: whatever the order of steps, the invariant holds, and
  a thread that has returned satisfies its postcondition.

`ok` narrows the runs considered: a run is built from steps that all meet it.  With
`ok := fun _ _ _ _ => True` every run is considered.
-/
import Mathlib.Logic.Function.Basic
import Mathlib.Logic.Relation

namespace Lib

/-! ## 1. Programs -/

/-- A sequential program over atomic operations `Op`, where `Res o` is what `o` answers. -/
inductive Prog (Op : Type) (Res : Op → Type) (α : Type) : Type
  | ret (a : α)
  | op (o : Op) (k : Res o → Prog Op Res α)

variable {c : Prop}

namespace Prog

variable {P : Op → Prop}

/-- Run the first program, then the second on its result. -/
def bind : Prog Op Res α → (α → Prog Op Res β) → Prog Op Res β
  | ret a, f => f a
  | op o k, f => op o fun r => (k r).bind f

instance : Monad (Prog Op Res) where
  pure := ret
  bind := bind

/-- The program that issues one operation and returns its result. -/
def perform (o : Op) : Prog Op Res (Res o) := op o ret

@[simp] theorem pure_eq (a : α) : (pure a : Prog Op Res α) = ret a := rfl

@[simp] theorem ret_bind (a : α) (f : α → Prog Op Res β) : (ret a >>= f) = f a := rfl

@[simp] theorem op_bind (o : Op) (k : Res o → Prog Op Res α) (f : α → Prog Op Res β) :
    (op o k >>= f) = op o fun r => k r >>= f := rfl

@[simp] theorem perform_bind (o : Op) (f : Res o → Prog Op Res β) :
    (perform o >>= f) = op o f := rfl

/-- Whatever it is answered, the program issues only operations that meet `P`. -/
def Issues (P : Op → Prop) : Prog Op Res α → Prop
  | ret _ => True
  | op o k => P o ∧ ∀ r, Issues P (k r)

theorem issues_pure (a : α) : (pure a : Prog Op Res α).Issues P := trivial

theorem issues_op {o : Op} {f : Res o → Prog Op Res α} (ho : P o)
    (hf : ∀ r, (f r).Issues P) : (perform o >>= f).Issues P :=
  ⟨ho, hf⟩

theorem issues_perform {o : Op} (ho : P o) : (perform o : Prog Op Res (Res o)).Issues P :=
  ⟨ho, fun _ => trivial⟩

theorem Issues.bind {f : α → Prog Op Res β} :
    ∀ {p : Prog Op Res α}, p.Issues P → (∀ a, (f a).Issues P) → (p >>= f).Issues P
  | .ret a, _, hf => hf a
  | .op _ _, h, hf => ⟨h.1, fun r => Issues.bind (h.2 r) hf⟩

theorem Issues.mono {P' : Op → Prop} (hP : ∀ o, P o → P' o) :
    ∀ {p : Prog Op Res α}, p.Issues P → p.Issues P'
  | .ret _, _ => trivial
  | .op o _, h => ⟨hP o h.1, fun r => Issues.mono hP (h.2 r)⟩

theorem issues_ite [Decidable c] {p q : Prog Op Res α} (hp : p.Issues P) (hq : q.Issues P) :
    (if c then p else q).Issues P := by
  split
  · exact hp
  · exact hq

end Prog

/-! ## 2. Runs of a pool of threads -/

section

/-- What an operation does: asked by a thread, in a store, with a result.  `none` means
that the store cannot give this result now. -/
abbrev Semantics (ι σ Op : Type) (Res : Op → Type) : Type :=
  ι → σ → (o : Op) → Res o → Option σ

/-- A guarded answer was given: the guard held. -/
theorem of_guard {_ : Decidable c} {s s' : σ} (h : (if c then some s else none) = some s') :
    c ∧ s = s' := by
  rw [Option.ite_none_right_eq_some] at h
  exact ⟨h.1, Option.some.inj h.2⟩

theorem of_guard_not {_ : Decidable c} {s s' : σ} (h : (if c then none else some s) = some s') :
    ¬ c ∧ s = s' := by
  rw [Option.ite_none_left_eq_some] at h
  exact ⟨h.1, Option.some.inj h.2⟩

/-- A condition on steps: who moves, from which store, by which operation and result. -/
abbrev StepCond (ι σ Op : Type) (Res : Op → Type) : Type :=
  ι → σ → (o : Op) → Res o → Prop

/-- The condition that every step meets. -/
def anyStep : StepCond ι σ Op Res := fun _ _ _ _ => True

/-- A store and what is left of each thread. -/
structure Config (ι σ Op : Type) (Res : Op → Type) (α : Type) where
  store : σ
  pool : ι → Prog Op Res α

variable [DecidableEq ι] {sem : Semantics ι σ Op Res} {ok : StepCond ι σ Op Res}
  {c c' : Config ι σ Op Res α}

/-- One thread performs its next operation. -/
inductive Step (sem : Semantics ι σ Op Res) (ok : StepCond ι σ Op Res) :
    Config ι σ Op Res α → Config ι σ Op Res α → Prop
  | mk (c : Config ι σ Op Res α) (i : ι) (o : Op) (k : Res o → Prog Op Res α) (r : Res o)
      (s' : σ) (hp : c.pool i = .op o k) (hok : ok i c.store o r)
      (hs : sem i c.store o r = some s') :
      Step sem ok c ⟨s', Function.update c.pool i (k r)⟩

/-- The configurations a pool can get to by steps that meet `ok`. -/
def Reach (sem : Semantics ι σ Op Res) (ok : StepCond ι σ Op Res)
    (c c' : Config ι σ Op Res α) : Prop :=
  Relation.ReflTransGen (Step sem ok) c c'

/-- The run without a step. -/
theorem Reach.start : Reach sem ok c c :=
  Relation.ReflTransGen.refl

/-- One more step at the end of a run.  On concrete configurations the thread's next operation
and the new store are found by evaluation. -/
theorem Reach.step (h : Reach sem ok c c') (i : ι) (o : Op) (r : Res o)
    {k : Res o → Prog Op Res α} {s' : σ} (hp : c'.pool i = .op o k := by rfl)
    (hok : ok i c'.store o r := by trivial) (hs : sem i c'.store o r = some s' := by rfl) :
    Reach sem ok c ⟨s', Function.update c'.pool i (k r)⟩ :=
  h.tail (.mk c' i o k r s' hp hok hs)

/-- A run of steps that all meet a condition is a run. -/
theorem Reach.anyStep (h : Reach sem ok c c') : Reach sem anyStep c c' := by
  refine Relation.ReflTransGen.mono ?_ _ _ h
  rintro _ _ ⟨i, o, k, r, s', hp, _, hs⟩
  exact .mk _ i o k r s' hp trivial hs

/-- **A store property that every operation keeps holds throughout a run**, whatever the
programs are. -/
theorem Reach.store_inv {P : σ → Prop} (hP : ∀ i s o r s', P s → sem i s o r = some s' → P s')
    (h : Reach sem ok c c') (h0 : P c.store) : P c'.store := by
  induction h with
  | refl => exact h0
  | tail _ hstep ih =>
    obtain ⟨i, o, k, r, s', -, -, hs⟩ := hstep
    exact hP i _ o r s' ih hs

end

/-! ## 3. Proof outlines -/

/-- What a verification of a pool fixes: the operations' meaning, the steps considered, the
invariant of the store, and the guarantee, which says in what stores a thread may issue an
operation. -/
structure Contract (ι σ Op : Type) (Res : Op → Type) where
  sem : Semantics ι σ Op Res
  ok : StepCond ι σ Op Res
  inv : σ → Prop
  guar : ι → σ → Op → Prop

namespace Contract

variable {Op α β ι σ : Type} {Res : Op → Type}

variable (C : Contract ι σ Op Res)

/-- A step of thread `i` that respects the contract. -/
def Move (i : ι) (s : σ) (o : Op) (r : Res o) (s' : σ) : Prop :=
  C.inv s ∧ C.guar i s o ∧ C.ok i s o r ∧ C.sem i s o r = some s'

/-- No step of any thread destroys `φ`. -/
def Persistent (φ : σ → Prop) : Prop :=
  ∀ i s o r s', C.Move i s o r s' → φ s → φ s'

/-- No step of a thread OTHER than `i` destroys `φ`. -/
def Stable (i : ι) (φ : σ → Prop) : Prop :=
  ∀ j s o r s', j ≠ i → C.Move j s o r s' → φ s → φ s'

/-- The invariant survives every step the contract allows. -/
def Preserved : Prop := ∀ i s o r s', C.Move i s o r s' → C.inv s'

variable {C} {φ : σ → Prop}

theorem Persistent.stable (h : C.Persistent φ) (i : ι) : C.Stable i φ :=
  fun j s o r s' _ hm hφ => h j s o r s' hm hφ

variable {ψ : σ → Prop}

theorem Persistent.and (hφ : C.Persistent φ) (hψ : C.Persistent ψ) :
    C.Persistent fun s => φ s ∧ ψ s :=
  fun i s o r s' hm h => ⟨hφ i s o r s' hm h.1, hψ i s o r s' hm h.2⟩

theorem Stable.and {i : ι} (hφ : C.Stable i φ) (hψ : C.Stable i ψ) :
    C.Stable i fun s => φ s ∧ ψ s :=
  fun j s o r s' hj hm h => ⟨hφ j s o r s' hj hm h.1, hψ j s o r s' hj hm h.2⟩

theorem persistent_const (p : Prop) : C.Persistent fun _ => p := fun _ _ _ _ _ _ h => h

theorem Persistent.imp {p : Prop} (hφ : C.Persistent φ) : C.Persistent fun s => p → φ s :=
  fun i s o r s' hm h hp => hφ i s o r s' hm (h hp)

variable (C)

/-- `C.Outline i φ p Q`: thread `i`, knowing `φ`, may run `p`.  Each operation is allowed
where `φ` holds, each result leads to a stable fact from which the rest is outlined, and a
returned value satisfies `Q`. -/
def Outline (i : ι) : (σ → Prop) → Prog Op Res α → (α → σ → Prop) → Prop
  | φ, .ret a, Q => ∀ s, C.inv s → φ s → Q a s
  | φ, .op o k, Q =>
      (∀ s, C.inv s → φ s → C.guar i s o) ∧
        ∀ r, ∃ φ' : σ → Prop, C.Stable i φ' ∧
          (∀ s s', φ s → C.Move i s o r s' → φ' s') ∧ Outline i φ' (k r) Q

variable {C} {i : ι} {φ φ' : σ → Prop} {Q : α → σ → Prop} {p : Prog Op Res α} {F : σ → Prop}
  {o : Op} {Q' : α → σ → Prop} {k : Res o → Prog Op Res α}

/-- Knowing more changes nothing. -/
theorem Outline.pre (hφ : ∀ s, C.inv s → φ s → φ' s) (h : C.Outline i φ' p Q) :
    C.Outline i φ p Q := by
  cases p with
  | ret a => exact fun s hs hp => h s hs (hφ s hs hp)
  | op o k =>
    refine ⟨fun s hs hp => h.1 s hs (hφ s hs hp), fun r => ?_⟩
    obtain ⟨ψ, hψ, hstep, hk⟩ := h.2 r
    exact ⟨ψ, hψ, fun s s' hp hm => hstep s s' (hφ s hm.1 hp) hm, hk⟩

/-- A weaker postcondition is easier. -/
theorem Outline.post (hQ : ∀ a s, C.inv s → Q a s → Q' a s) :
    ∀ {p : Prog Op Res α} {φ : σ → Prop}, C.Outline i φ p Q → C.Outline i φ p Q'
  | .ret a, _, h => fun s hs hp => hQ a s hs (h s hs hp)
  | .op _ _, _, h => by
      refine ⟨h.1, fun r => ?_⟩
      obtain ⟨ψ, hψ, hstep, hk⟩ := h.2 r
      exact ⟨ψ, hψ, hstep, Outline.post hQ hk⟩

/-- Sequencing: the first program's postcondition is what the second one knows. -/
theorem Outline.bind {R : α → σ → Prop} {f : α → Prog Op Res β} {Q : β → σ → Prop}
    (hf : ∀ a, C.Outline i (R a) (f a) Q) :
    ∀ {p : Prog Op Res α} {φ : σ → Prop}, C.Outline i φ p R → C.Outline i φ (p >>= f) Q
  | .ret a, _, h => (hf a).pre h
  | .op _ _, _, h => by
      refine ⟨h.1, fun r => ?_⟩
      obtain ⟨ψ, hψ, hstep, hk⟩ := h.2 r
      exact ⟨ψ, hψ, hstep, Outline.bind hf hk⟩

/-- What nobody destroys is still known when the program has run. -/
theorem Outline.frame (hF : C.Persistent F) :
    ∀ {p : Prog Op Res α} {φ : σ → Prop}, C.Outline i φ p Q →
      C.Outline i (fun s => φ s ∧ F s) p fun a s => Q a s ∧ F s
  | .ret _, _, h => fun s hs hp => ⟨h s hs hp.1, hp.2⟩
  | .op o _, _, h => by
      refine ⟨fun s hs hp => h.1 s hs hp.1, fun r => ?_⟩
      obtain ⟨ψ, hψ, hstep, hk⟩ := h.2 r
      exact ⟨fun s => ψ s ∧ F s, hψ.and (hF.stable i),
        fun s s' hp hm => ⟨hstep s s' hp.1 hm, hF i s o r s' hm hp.2⟩, Outline.frame hF hk⟩

/-- Two outlines of one program are one. -/
theorem Outline.and :
    ∀ {p : Prog Op Res α} {φ φ' : σ → Prop}, C.Outline i φ p Q → C.Outline i φ' p Q' →
      C.Outline i (fun s => φ s ∧ φ' s) p fun a s => Q a s ∧ Q' a s
  | .ret _, _, _, h, h' => fun s hs hp => ⟨h s hs hp.1, h' s hs hp.2⟩
  | .op _ _, _, _, h, h' => by
      refine ⟨fun s hs hp => h.1 s hs hp.1, fun r => ?_⟩
      obtain ⟨ψ, hψ, hstep, hk⟩ := h.2 r
      obtain ⟨ψ', hψ', hstep', hk'⟩ := h'.2 r
      exact ⟨fun s => ψ s ∧ ψ' s, hψ.and hψ',
        fun s s' hp hm => ⟨hstep s s' hp.1 hm, hstep' s s' hp.2 hm⟩, Outline.and hk hk'⟩

/-- An operation, result by result. -/
theorem Outline.op (hg : ∀ s, C.inv s → φ s → C.guar i s o)
    (hr : ∀ r, ∃ ψ : σ → Prop, C.Stable i ψ ∧ (∀ s s', φ s → C.Move i s o r s' → ψ s') ∧
      C.Outline i ψ (k r) Q) :
    C.Outline i φ (.op o k) Q :=
  ⟨hg, hr⟩

/-- A result after which nothing has to be known. -/
theorem Outline.forget {r : Res o} (h : C.Outline i (fun _ => True) p Q) :
    ∃ ψ : σ → Prop, C.Stable i ψ ∧
      (∀ s s', φ s → C.Move i s o r s' → ψ s') ∧ C.Outline i ψ p Q :=
  ⟨_, (persistent_const True).stable i, fun _ _ _ _ => trivial, h⟩

/-- An operation after which thread `i` knows `ψ r`. -/
theorem Outline.learn (ψ : Res o → σ → Prop) (hg : ∀ s, C.inv s → φ s → C.guar i s o)
    (hst : ∀ r, C.Stable i (ψ r)) (hstep : ∀ s r s', φ s → C.Move i s o r s' → ψ r s')
    (hk : ∀ r, C.Outline i (ψ r) (k r) Q) : C.Outline i φ (.op o k) Q :=
  ⟨hg, fun r => ⟨ψ r, hst r, fun s s' hp hm => hstep s r s' hp hm, hk r⟩⟩

/-- An operation that leaves what thread `i` knows as it is. -/
theorem Outline.keep (hg : ∀ s, C.inv s → φ s → C.guar i s o) (hst : C.Stable i φ)
    (hown : ∀ s r s', C.Move i s o r s' → φ s → φ s') (hk : ∀ r, C.Outline i φ (k r) Q) :
    C.Outline i φ (.op o k) Q :=
  .learn (fun _ => φ) hg (fun _ => hst) (fun s r s' hp hm => hown s r s' hm hp) hk

variable {a : α}

/-- A returned value. -/
theorem Outline.ret (h : ∀ s, C.inv s → φ s → Q a s) : C.Outline i φ (.ret a) Q :=
  h

theorem Outline.ite [Decidable c] {q : Prog Op Res α} (hp : c → C.Outline i φ p Q)
    (hq : ¬ c → C.Outline i φ q Q) : C.Outline i φ (if c then p else q) Q := by
  split
  · exact hp ‹c›
  · exact hq ‹¬ c›

/-- A return that leaves the assertion as it is. -/
theorem Outline.done : C.Outline i φ (.ret a) fun _ => φ :=
  fun _ _ hs => hs

/-- A thread that cannot be there may do anything. -/
theorem Outline.absurd : ∀ p : Prog Op Res α, C.Outline i (fun _ => False) p Q
  | .ret _ => fun _ _ h => h.elim
  | .op _ k => ⟨fun _ _ h => h.elim, fun r =>
      ⟨fun _ => False, fun _ _ _ _ _ _ _ h => h, fun _ _ h => h.elim, Outline.absurd (k r)⟩⟩

section Reach

variable {pool : ι → Prog Op Res α} {c : Config ι σ Op Res α} [DecidableEq ι] {s : σ}
  {Q : ι → α → σ → Prop} {φ : ι → σ → Prop} (hpres : C.Preserved) (hinv : C.inv s)
  (hst : ∀ i, C.Stable i (φ i)) (hφ : ∀ i, φ i s) (hpool : ∀ i, C.Outline i (φ i) (pool i) (Q i))

include hpres hinv hst hφ hpool

variable (hr : Reach C.sem C.ok ⟨s, pool⟩ c)

include hr

/-- **The rule of the library.**  If every thread has an outline, then along every
interleaving the invariant holds, and each thread still has an outline for what is left of
it, from a fact that holds now. -/
theorem reach_outline :
    C.inv c.store ∧ ∀ i, ∃ ψ : σ → Prop, C.Stable i ψ ∧ ψ c.store ∧
      C.Outline i ψ (c.pool i) (Q i) := by
  induction hr with
  | refl => exact ⟨hinv, fun i => ⟨φ i, hst i, hφ i, hpool i⟩⟩
  | tail _ hstep ih =>
    obtain ⟨hI, hT⟩ := ih
    obtain ⟨j, o, k, r, s', hp, hok, hs⟩ := hstep
    -- the thread that moves: its own outline gives the guarantee and the next fact
    obtain ⟨ψj, hψj, hψjs, hoj⟩ := hT j
    rw [hp] at hoj
    have hm := (⟨hI, hoj.1 _ hI hψjs, hok, hs⟩ : C.Move j _ o r s')
    refine ⟨hpres j _ o r s' hm, fun i => ?_⟩
    by_cases hij : i = j
    · subst hij
      obtain ⟨ψ, hψ, hown, hk⟩ := hoj.2 r
      exact ⟨ψ, hψ, hown _ _ hψjs hm, by simpa using hk⟩
    · -- a thread that stands: its fact is stable
      obtain ⟨ψ, hψ, hψs, ho⟩ := hT i
      exact ⟨ψ, hψ, hψ j _ o r s' (Ne.symm hij) hm hψs, by simpa [hij] using ho⟩

/-- ...and in particular a thread that has returned satisfies its postcondition. -/
theorem reach_post (ha : c.pool i = .ret a) : Q i a c.store := by
  obtain ⟨hI, hT⟩ := reach_outline hpres hinv hst hφ hpool hr
  obtain ⟨ψ, -, hψ, ho⟩ := hT i
  rw [ha] at ho
  exact ho _ hI hψ

/-- ...and an operation that a thread is about to issue is one the guarantee allows. -/
theorem reach_guar (hp : c.pool i = .op o k) : C.guar i c.store o := by
  obtain ⟨hI, hT⟩ := reach_outline hpres hinv hst hφ hpool hr
  obtain ⟨ψ, -, hψ, ho⟩ := hT i
  rw [hp] at ho
  exact ho.1 _ hI hψ

omit hr

/-- ...and what nobody destroys holds from any point of the run on. -/
theorem reach_persistent {Φ : σ → Prop} (hΦ : C.Persistent Φ)
    {c' : Config ι σ Op Res α} (hr : Reach C.sem C.ok ⟨s, pool⟩ c)
    (hr' : Reach C.sem C.ok c c') (h : Φ c.store) : Φ c'.store := by
  induction hr' with
  | refl => exact h
  | tail hbefore hstep ih =>
    have hreach := hr.trans hbefore
    obtain ⟨i, o, k, r, s', hp, hok, hs⟩ := hstep
    have hI := (reach_outline hpres hinv hst hφ hpool hreach).1
    have hg := reach_guar hpres hinv hst hφ hpool hreach hp
    exact hΦ i _ o r s' ⟨hI, hg, hok, hs⟩ ih

end Reach

variable {P : Op → Prop}

/-- A program all of whose operations are allowed wherever `F` holds, and keep it. -/
theorem Outline.of_issues_keep (hF : C.Stable i F)
    (hown : ∀ s o r s', P o → C.Move i s o r s' → F s → F s')
    (hP : ∀ s o, C.inv s → F s → P o → C.guar i s o) :
    ∀ {p : Prog Op Res α}, p.Issues P → C.Outline i F p fun _ => F
  | .ret _, _ => fun _ _ hs => hs
  | .op o _, h => by
      refine ⟨fun s hs hf => hP s o hs hf h.1, fun r => ?_⟩
      exact ⟨F, hF, fun s s' hf hm => hown s o r s' h.1 hm hf, of_issues_keep hF hown hP (h.2 r)⟩

/-- ...in particular where nobody destroys `F`. -/
theorem Outline.of_issues (hF : C.Persistent F) (hP : ∀ s o, C.inv s → F s → P o → C.guar i s o)
    (h : p.Issues P) : C.Outline i F p fun _ => F :=
  of_issues_keep (hF.stable i) (fun s o r s' _ hm hf => hF i s o r s' hm hf) hP h

-- From here on an outline is built by the rules, never by running the program.
attribute [irreducible] Outline

end Contract

end Lib
