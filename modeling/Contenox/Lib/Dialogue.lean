/-
# One program and an outside that answers it

`Threads.lean` runs many programs over a store.  Often one program is enough, and there is no
store: the outside may answer whatever it likes, and the question is what the program ASKS,
given what it has been told.

* `Run p es q`: after the exchanges `es`, in order, the program `p` has become `q`.
* `Meets A P Q h p`: if every exchange meets `A`, then each operation `p` issues meets `P`
  at the exchanges before it, and the result meets `Q` at all of them; `h` are the exchanges
  before `p` began.  It is defined by recursion on the program, so that a program is verified
  part by part, and `Meets.always` turns it into a statement about every run.
-/
import Contenox.Lib.Threads

namespace Lib.Prog

variable {Op : Type} {Res : Op → Type} {α β : Type}

/-- An operation and the answer it got. -/
abbrev Event (Op : Type) (Res : Op → Type) : Type := Sigma Res

/-- After the exchanges `es` the program `p` has become the last argument. -/
inductive Run (p : Prog Op Res α) : List (Event Op Res) → Prog Op Res α → Prop
  | start : Run p [] p
  | next {es : List (Event Op Res)} {o : Op} {k : Res o → Prog Op Res α} (r : Res o)
      (h : Run p es (.op o k)) : Run p (es ++ [⟨o, r⟩]) (k r)

/-- Under the assumption `A` on the exchanges, the program keeps to `P` and ends in `Q`. -/
def Meets (A : Event Op Res → Prop) (P : List (Event Op Res) → Op → Prop)
    (Q : List (Event Op Res) → α → Prop) : List (Event Op Res) → Prog Op Res α → Prop
  | h, ret a => Q h a
  | h, op o k => P h o ∧ ∀ r, A ⟨o, r⟩ → Meets A P Q (h ++ [⟨o, r⟩]) (k r)

variable {A : Event Op Res → Prop} {P : List (Event Op Res) → Op → Prop}
  {Q : List (Event Op Res) → α → Prop} {h : List (Event Op Res)}

theorem meets_pure {a : α} (hq : Q h a) : Meets A P Q h (pure a : Prog Op Res α) := hq

theorem meets_perform {o : Op} {f : Res o → Prog Op Res α} (hp : P h o)
    (hf : ∀ r, A ⟨o, r⟩ → Meets A P Q (h ++ [⟨o, r⟩]) (f r)) : Meets A P Q h (perform o >>= f) :=
  ⟨hp, hf⟩

theorem meets_ite {c : Prop} [Decidable c] {p q : Prog Op Res α} (hp : c → Meets A P Q h p)
    (hq : ¬ c → Meets A P Q h q) : Meets A P Q h (if c then p else q) := by
  split
  · next hc => exact hp hc
  · next hc => exact hq hc

/-- One program after another: the facts about the first one's result carry over. -/
theorem Meets.bind {R : List (Event Op Res) → β → Prop} {f : β → Prog Op Res α} :
    ∀ {p : Prog Op Res β} {h : List (Event Op Res)}, Meets A P R h p →
      (∀ h b, R h b → Meets A P Q h (f b)) → Meets A P Q h (p >>= f)
  | .ret b, h, hp, hf => hf h b hp
  | .op _ _, _, hp, hf => ⟨hp.1, fun r hr => Meets.bind (hp.2 r hr) hf⟩

/-- A weaker duty, and a weaker end. -/
theorem Meets.mono {P' : List (Event Op Res) → Op → Prop} {Q' : List (Event Op Res) → α → Prop}
    (hP : ∀ h o, P h o → P' h o) (hQ : ∀ h a, Q h a → Q' h a) :
    ∀ {p : Prog Op Res α} {h : List (Event Op Res)}, Meets A P Q h p → Meets A P' Q' h p
  | .ret a, h, hp => hQ h a hp
  | .op _ _, h, hp => ⟨hP h _ hp.1, fun r hr => Meets.mono hP hQ (hp.2 r hr)⟩

/-- A run whose exchanges meet the assumption leaves a program that still keeps to it. -/
theorem Meets.run {p q : Prog Op Res α} {es : List (Event Op Res)} (hp : Meets A P Q h p)
    (hr : Run p es q) (ha : ∀ e ∈ es, A e) : Meets A P Q (h ++ es) q := by
  induction hr with
  | start => rwa [List.append_nil]
  | @next es o k r _ ih =>
    rw [← List.append_assoc]
    exact (ih fun e he => ha e (List.mem_append_left _ he)).2 r (ha _ (by simp))

/-- What a kept program does next keeps to `P`. -/
theorem Meets.now {o : Op} {k : Res o → Prog Op Res α} (hp : Meets A P Q h (.op o k)) : P h o :=
  hp.1

-- a goal `Meets .. (if c then ..)` must not be evaluated when a rule is applied to it
attribute [irreducible] Meets

/-- In every run whose exchanges meet `A`, whatever is asked meets `P` at the exchanges
before it. -/
def Always (A : Event Op Res → Prop) (P : List (Event Op Res) → Op → Prop)
    (p : Prog Op Res α) : Prop :=
  ∀ (es : List (Event Op Res)) (o : Op) (k : Res o → Prog Op Res α),
    Run p es (.op o k) → (∀ e ∈ es, A e) → P es o

theorem Meets.always {p : Prog Op Res α} (hp : Meets A P Q [] p) : p.Always A P := by
  intro es o k hr ha
  exact (hp.run hr ha).now

end Lib.Prog
