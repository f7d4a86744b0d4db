/-
# What the `LIKE` of the agent bounds matches

The bounds count the rows whose resolution is `LIKE '%"decidedBy":%'`, or
`LIKE '%"answeredBy":%'`.  The resolution is JSON text that may carry anything a person has
typed.  `contains_encode` says that the count is exact all the same: the text of a resolution
contains the marker of a member if and only if that member is set.

The reason is how the text is written.  Inside a string literal every quote has a backslash
before it, so a marker that starts inside one would need an unescaped quote after letters only
(`startsBy_literal`); one that starts at the literal's own quote would need a colon behind the
literal.  What is left are the names of the members, and they differ even without regard to
case, which is how SQLite compares.
-/
import Contenox.Approvals.Service

namespace Contenox.Approvals

open Lib.SqlLike (Collation startsBy contains like)

variable {same : Char → Char → Bool} {name : List Char}

/-- The text of a member's name, with its colon. -/
def marker (name : List Char) : List Char := '"' :: (name ++ ['"', ':'])

/-- A character that means nothing in JSON, whatever its case. -/
def Plain (c : Char) : Prop := c.toLower ∉ ['"', '\\', ':', ',', Char.ofNat 125]

instance (c : Char) : Decidable (Plain c) := inferInstanceAs (Decidable (_ ∉ _))

variable {l : List Char}

theorem plain_of_all (h : l.all (fun c => decide (Plain c)) = true) : ∀ c ∈ l, Plain c :=
  fun c hc => of_decide_eq_true (List.all_eq_true.mp h c hc)

/-- What stands behind a member of an object. -/
def EndsMember (rest : List Char) : Prop :=
  ∃ c cs, rest = c :: cs ∧ (c = ',' ∨ c = Char.ofNat 125)

/-- Every quote has a backslash before it; `esc` is whether one stands before the text. -/
def QuotesEscaped : Bool → List Char → Prop
  | _, [] => True
  | esc, c :: cs => (c = '"' → esc = true) ∧ QuotesEscaped (c = '\\') cs

variable {b : Bool} {s : List Char}

theorem QuotesEscaped.weaken (h : QuotesEscaped false s) : QuotesEscaped b s := by
  cases s with
  | nil => trivial
  | cons c cs => exact ⟨fun hq => absurd (h.1 hq) (by simp), h.2⟩

/-- A hexadecimal digit is neither a quote nor a backslash. -/
theorem digitChar_plain (n : Nat) :
    Nat.digitChar (n % 16) ≠ '"' ∧ Nat.digitChar (n % 16) ≠ '\\' := by
  have hlt : n % 16 < 16 := Nat.mod_lt _ (by decide)
  generalize n % 16 = d at hlt
  revert d
  decide

/-- Escaping one character keeps the quotes escaped, and never starts with a quote. -/
theorem quotesEscaped_escapeChar (c : Char) (h : QuotesEscaped false s)
    (hs : ∀ b, QuotesEscaped b s) : QuotesEscaped false (escapeChar c ++ s) := by
  unfold escapeChar
  split
  · exact ⟨by decide, fun _ => rfl, h⟩
  rename_i hquote
  split
  · exact ⟨by decide, by decide, hs _⟩
  iterate 5
    split
    · exact ⟨by decide, by decide, h⟩
  split
  · refine ⟨by decide, by decide, ?_⟩
    exact ⟨fun hq => absurd hq (digitChar_plain _).1, fun hq =>
      absurd hq (digitChar_plain _).1, fun hq => absurd hq (digitChar_plain _).1,
      fun hq => absurd hq (digitChar_plain _).1, hs _⟩
  · exact ⟨fun hq => absurd hq hquote, hs _⟩

/-- The inside of a string literal. -/
theorem quotesEscaped_flatMap (s : List Char) : QuotesEscaped false (s.flatMap escapeChar) := by
  induction s with
  | nil => trivial
  | cons c s ih =>
    exact quotesEscaped_escapeChar c ih fun _ => ih.weaken

section Scan

variable (hcol : Collation same)
include hcol

variable {d : Char}

theorem same_quote (h : same '"' d = true) : d = '"' :=
  hcol.eq_of_same (by decide) h

theorem same_colon (h : same ':' d = true) : d = ':' :=
  hcol.eq_of_same (by decide) h

/-- A plain character equals only plain characters. -/
theorem Plain.of_same {c : Char} (hc : Plain c) (h : same c d = true) : Plain d := by
  unfold Plain
  rw [← hcol.ascii c d h]
  exact hc

theorem not_same_quote (hd : d ≠ '"') : same '"' d = false :=
  Bool.eq_false_iff.mpr fun h => hd (same_quote hcol h)

theorem not_same_of_plain {c : Char} (hc : Plain c) (hd : ¬ Plain d) : same c d = false :=
  Bool.eq_false_iff.mpr fun h => hd (hc.of_same hcol h)

variable (hname : ∀ c ∈ name, Plain c) (hne : name ≠ []) {c : Char}
include hname

variable {rest : List Char}

/-- The rest of a marker does not match from inside a literal to beyond its end. -/
theorem startsBy_literal {inside : List Char} (hin : QuotesEscaped false inside)
    (hrest : EndsMember rest) :
    startsBy same (name ++ ['"', ':']) (inside ++ '"' :: rest) = false := by
  induction name generalizing inside with
  | nil =>
    cases inside with
    | nil =>
      obtain ⟨c, cs, rfl, hc⟩ := hrest
      have hcolon : same ':' c = false := by
        rw [Bool.eq_false_iff]
        intro h
        have := same_colon hcol h
        rcases hc with rfl | rfl
        · exact absurd this (by decide)
        · exact absurd this (by decide)
      simp [startsBy, hcolon]
    | cons c inside =>
      have hquote : same '"' c = false := not_same_quote hcol fun h => absurd (hin.1 h) (by simp)
      simp [startsBy, hquote]
  | cons n name ih =>
    have hn : Plain n := hname n (by simp)
    cases inside with
    | nil =>
      have hquote : same n '"' = false := not_same_of_plain hcol hn (by decide)
      simp [startsBy, hquote]
    | cons c inside =>
      rw [List.cons_append, List.cons_append, startsBy, Bool.and_eq_false_iff]
      by_cases hc : same n c = true
      · right
        refine ih (fun c hc => hname c (by simp [hc])) ?_
        -- a plain character is no backslash
        have hback : c ≠ '\\' := by
          rintro rfl
          exact absurd (Plain.of_same hcol hn hc) (by decide)
        simpa [hback] using hin.2
      · left
        simpa using hc

omit hname in
/-- A marker starts with a quote. -/
theorem startsBy_marker (hc : c ≠ '"') (s : List Char) :
    startsBy same (marker name) (c :: s) = false := by
  rw [marker, startsBy, not_same_quote hcol hc, Bool.false_and]

omit hname in
theorem contains_skip (hc : c ≠ '"') (s : List Char) :
    contains same (marker name) (c :: s) = contains same (marker name) s := by
  rw [contains, startsBy_marker hcol hc, Bool.false_or]

omit hname in
theorem contains_skips (hl : '"' ∉ l) (s : List Char) :
    contains same (marker name) (l ++ s) = contains same (marker name) s := by
  induction l with
  | nil => rfl
  | cons c l ih =>
    rw [List.mem_cons] at hl
    push Not at hl
    rw [List.cons_append, contains_skip hcol (Ne.symm hl.1), ih hl.2]

include hne

/-- A quote that no plain character follows starts no marker. -/
theorem contains_skip_quote (hc : ¬ Plain c) (s : List Char) :
    contains same (marker name) ('"' :: c :: s) = contains same (marker name) (c :: s) := by
  obtain ⟨n, rest, rfl⟩ := List.exists_cons_of_ne_nil hne
  have hfalse : same n c = false := not_same_of_plain hcol (hname n (by simp)) hc
  rw [contains]
  simp [marker, startsBy, hfalse]

/-- **No marker in a string literal**, whatever it says. -/
theorem contains_quoteJSON (s : String) (hrest : EndsMember rest) :
    contains same (marker name) (quoteJSON s ++ rest) = contains same (marker name) rest := by
  have hclose : contains same (marker name) ('"' :: rest) = contains same (marker name) rest := by
    obtain ⟨c, cs, rfl, hc⟩ := hrest
    refine contains_skip_quote hcol hname hne ?_ cs
    rcases hc with rfl | rfl
    · decide
    · decide
  -- the quotes inside the literal
  have hinside : ∀ (inside : List Char) (b : Bool), QuotesEscaped b inside →
      contains same (marker name) (inside ++ '"' :: rest) = contains same (marker name) rest := by
    intro inside
    induction inside with
    | nil => exact fun _ _ => hclose
    | cons c inside ih =>
      intro b hin
      rw [List.cons_append, contains, ih _ hin.2]
      by_cases hc : c = '"'
      · subst hc
        rw [marker, startsBy, hcol.refl, Bool.true_and,
          startsBy_literal hcol hname (by simpa using hin.2) hrest, Bool.false_or]
      · rw [startsBy_marker hcol hc, Bool.false_or]
  have hlit := quotesEscaped_flatMap s.toList
  have hshape : quoteJSON s ++ rest = '"' :: (s.toList.flatMap escapeChar ++ '"' :: rest) := by
    simp [quoteJSON]
  rw [hshape, contains, hinside _ false hlit, marker, startsBy, hcol.refl, Bool.true_and,
    startsBy_literal hcol hname hlit hrest, Bool.false_or]

omit hne in
/-- A name matches a marker's name only if the two are equal up to case. -/
theorem startsBy_name {key : List Char} (hkey : ∀ c ∈ key, Plain c)
    (hlow : name.map Char.toLower ≠ key.map Char.toLower) :
    startsBy same (name ++ ['"', ':']) (key ++ '"' :: ':' :: s) = false := by
  induction name generalizing key with
  | nil =>
    cases key with
    | nil => exact absurd rfl hlow
    | cons c key =>
      have hquote : same '"' c = false := by
        refine not_same_quote hcol ?_
        rintro rfl
        exact absurd (hkey '"' (by simp)) (by decide)
      simp [startsBy, hquote]
  | cons n name ih =>
    cases key with
    | nil =>
      have hquote : same n '"' = false := not_same_of_plain hcol (hname n (by simp)) (by decide)
      simp [startsBy, hquote]
    | cons c key =>
      rw [List.cons_append, List.cons_append, startsBy, Bool.and_eq_false_iff]
      by_cases hc : same n c = true
      · right
        refine ih (fun c hc => hname c (by simp [hc])) (fun c hc => hkey c (by simp [hc])) ?_
        rw [List.map_cons, List.map_cons, hcol.ascii n c hc] at hlow
        exact fun h => hlow (by rw [h])
      · left
        simpa using hc

omit hname hne in
theorem startsBy_self (l s : List Char) : startsBy same l (l ++ s) = true := by
  induction l with
  | nil => rfl
  | cons c l ih => rw [List.cons_append, startsBy, hcol.refl, ih]; rfl

/-- The text of a member: its name counts, and behind it only what follows its value. -/
theorem contains_member {key value : List Char} (hkey : ∀ c ∈ key, Plain c)
    (hsame : name = key ∨ name.map Char.toLower ≠ key.map Char.toLower)
    (hvalue : ∀ rest, EndsMember rest →
      contains same (marker name) (value ++ rest) = contains same (marker name) rest)
    (hrest : EndsMember rest) :
    contains same (marker name) ('"' :: key ++ '"' :: ':' :: value ++ rest) =
      (decide (name = key) || contains same (marker name) rest) := by
  have hquote : '"' ∉ key := fun h => absurd (hkey _ h) (by decide)
  have hshape : '"' :: key ++ '"' :: ':' :: value ++ rest =
      '"' :: (key ++ '"' :: ':' :: (value ++ rest)) := by simp
  have htail : contains same (marker name) (key ++ '"' :: ':' :: (value ++ rest)) =
      contains same (marker name) rest := by
    rw [contains_skips hcol hquote, contains_skip_quote hcol hname hne (by decide),
      contains_skip hcol (by decide), hvalue rest hrest]
  rw [hshape, contains, htail, marker, startsBy, hcol.refl, Bool.true_and]
  rcases hsame with rfl | hlow
  · have : name ++ '"' :: ':' :: (value ++ rest) = (name ++ ['"', ':']) ++ (value ++ rest) := by simp
    rw [this, startsBy_self hcol]
    simp
  · have hne' : name ≠ key := fun h => hlow (by rw [h])
    rw [startsBy_name hcol hname hkey hlow]
    simp [hne']

end Scan

/-! ## 2. The text of a resolution -/

section

/-- The text of one member: whether it counts, and nothing else before what follows it. -/
def IsMember (same : Char → Char → Bool) (name m : List Char) (counts : Bool) : Prop :=
  ∀ rest, EndsMember rest →
    contains same (marker name) (m ++ rest) = (counts || contains same (marker name) rest)

/-- The texts of some members, one of which counts if `counts` says so. -/
inductive Members (same : Char → Char → Bool) (name : List Char) : List (List Char) → Bool → Prop
  | nil : Members same name [] false
  | cons {m : List Char} {ms : List (List Char)} {b c : Bool} (hm : IsMember same name m b)
      (hms : Members same name ms c) : Members same name (m :: ms) (b || c)

theorem Members.append {ms ms' : List (List Char)} {b' : Bool} (h : Members same name ms b)
    (h' : Members same name ms' b') : Members same name (ms ++ ms') (b || b') := by
  induction h with
  | nil => exact h'
  | cons hm hms ih => rw [Bool.or_assoc]; exact .cons hm ih

/-- The members of an object, joined. -/
theorem Members.contains_object (hcol : Collation same) {ms : List (List Char)}
    (h : Members same name ms b) :
    contains same (marker name) (List.intercalate [','] ms ++ [Char.ofNat 125]) = b := by
  have hend : contains same (marker name) [Char.ofNat 125] = false := by
    rw [contains_skip hcol (by decide)]
    rfl
  induction h with
  | nil => exact hend
  | cons hm hms ih =>
    rename_i m ms b c
    cases ms with
    | nil =>
      cases hms
      have hone : List.intercalate [','] [m] = m := by simp [List.intercalate]
      rw [hone, hm _ ⟨_, [], rfl, .inr rfl⟩, hend]
    | cons m' ms =>
      have hmore : List.intercalate [','] (m :: m' :: ms) ++ [Char.ofNat 125] =
          m ++ (',' :: (List.intercalate [','] (m' :: ms) ++ [Char.ofNat 125])) := by
        simp [List.intercalate]
      rw [hmore, hm _ ⟨_, _, rfl, .inl rfl⟩, contains_skip hcol (by decide), ih]

variable (hcol : Collation same) (hname : ∀ c ∈ name, Plain c) (hne : name ≠ [])
include hcol hname hne

/-- A member whose text holds no marker of its own. -/
theorem members_of {α : Type} {text : α → List Char} (key : String) (hkey : ∀ c ∈ key.toList, Plain c)
    (hsame : name = key.toList ∨ name.map Char.toLower ≠ key.toList.map Char.toLower)
    (htext : ∀ a rest, EndsMember rest →
      contains same (marker name) (text a ++ rest) = contains same (marker name) rest)
    (v : Option α) :
    Members same name (jsonMember key (v.map text)) (decide (name = key.toList) && v.isSome) := by
  cases v with
  | none =>
    rw [Option.isSome_none, Bool.and_false]
    exact .nil
  | some a =>
    have hm : IsMember same name ('"' :: key.toList ++ '"' :: ':' :: text a)
        (decide (name = key.toList)) := fun rest hrest =>
      contains_member hcol hname hne hkey hsame (htext a) hrest
    rw [Option.isSome_some, Bool.and_true, ← Bool.or_false (decide _)]
    exact .cons hm .nil

/-- The names of a resolution's members. -/
def resolutionKeys : List String :=
  ["approved", "answer", "answeredBy", "answeredByHuman", "decidedBy", "decidedByHuman",
    "guidance"]

omit hcol hname hne in
theorem plain_resolutionKeys : ∀ key ∈ resolutionKeys, ∀ c ∈ key.toList, Plain c := by
  have hall : (resolutionKeys.all fun key => key.toList.all fun c => decide (Plain c)) = true := by
    decide
  exact fun key hkey => plain_of_all (List.all_eq_true.mp hall key hkey)

/-- The text of a resolution contains a marker if and only if the member of that name is set. -/
theorem contains_marker_encode
    (hsame : ∀ key ∈ resolutionKeys,
      name = key.toList ∨ name.map Char.toLower ≠ key.toList.map Char.toLower)
    (r : ApprovalResolution) : contains same (marker name) r.encode.toList =
      ((((((decide (name = "approved".toList) && r.approved.isSome ||
        decide (name = "answer".toList) && r.answer.isSome) ||
        decide (name = "answeredBy".toList) && r.answeredBy.isSome) ||
        decide (name = "answeredByHuman".toList) && r.answeredByHuman.isSome) ||
        decide (name = "decidedBy".toList) && r.decidedBy.isSome) ||
        decide (name = "decidedByHuman".toList) && r.decidedByHuman.isSome) ||
        decide (name = "guidance".toList) && r.guidance.isSome) := by
  have hstring := fun key (hk : key ∈ resolutionKeys) =>
    members_of hcol hname hne key (plain_resolutionKeys key hk) (hsame key hk)
      fun s _ hrest => contains_quoteJSON hcol hname hne s hrest
  have hbool (b : Bool) : '"' ∉ (if b then "true" else "false" : String).toList := by
    cases b <;> decide
  have happroved := members_of hcol hname hne "approved" (plain_resolutionKeys _ (by decide))
    (hsame _ (by decide)) (fun b rest _ => contains_skips hcol (hbool b) rest) r.approved
  unfold ApprovalResolution.encode
  rw [String.toList_ofList, List.cons_append, contains_skip hcol (by decide)]
  refine Members.contains_object hcol ?_
  exact (((((happroved.append (hstring "answer" (by decide) r.answer)).append
    (hstring "answeredBy" (by decide) r.answeredBy)).append
    (hstring "answeredByHuman" (by decide) r.answeredByHuman)).append
    (hstring "decidedBy" (by decide) r.decidedBy)).append
    (hstring "decidedByHuman" (by decide) r.decidedByHuman)).append
    (hstring "guidance" (by decide) r.guidance)

end

/-- **The count is exact.**  The text of a resolution contains the marker of an agent's
decision, or of an agent's answer, if and only if it records one. -/
theorem contains_encode (hcol : Collation same) (r : ApprovalResolution) :
    contains same agentApprovalResolutionLike.toList r.encode.toList = r.decidedBy.isSome ∧
      contains same agentResolutionLike.toList r.encode.toList = r.answeredBy.isSome := by
  have hdecided : agentApprovalResolutionLike.toList = marker "decidedBy".toList := by decide
  have hanswered : agentResolutionLike.toList = marker "answeredBy".toList := by decide
  rw [hdecided, hanswered,
    contains_marker_encode hcol (plain_of_all (by rfl)) (by decide) (by decide) r,
    contains_marker_encode hcol (plain_of_all (by rfl)) (by decide) (by decide) r]
  simp

/-- ...and so is the `LIKE` of the bounds, in the model and in any database. -/
theorem likeContains_encode (r : ApprovalResolution) :
    likeContains agentApprovalResolutionLike r.encode = r.decidedBy.isSome ∧
      likeContains agentResolutionLike r.encode = r.answeredBy.isSome :=
  contains_encode Lib.SqlLike.collation_eq r

theorem like_encode (hcol : Collation same) (r : ApprovalResolution) :
    like same none ("%" ++ agentApprovalResolutionLike ++ "%") r.encode = r.decidedBy.isSome ∧
      like same none ("%" ++ agentResolutionLike ++ "%") r.encode = r.answeredBy.isSome := by
  rw [Lib.SqlLike.like_contains (by decide), Lib.SqlLike.like_contains (by decide)]
  exact contains_encode hcol r

end Contenox.Approvals
