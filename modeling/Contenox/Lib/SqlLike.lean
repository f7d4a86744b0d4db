/-
# `LIKE` patterns

`LIKE` matches a whole text against a pattern in which a percent sign stands for any run of
characters and an underscore for any one.  An `ESCAPE` character takes the character after it
literally.  How two characters compare is the database's: SQLite ignores the case of ASCII
letters, Postgres does not.

`like_contains` is the shape a search takes: a text without wildcards between two percent signs
is a test for texts that contain it.
-/
import Contenox.Lib.GoStrings

namespace Lib.SqlLike

/-- One place of a pattern. -/
inductive Item
  | any
  | one
  | lit (c : Char)
  deriving DecidableEq, Repr

/-- The places of a pattern, `esc` being the escape character where there is one. -/
def items (esc : Option Char) : List Char → List Item
  | [] => []
  | [c] => [if c = '%' then .any else if c = '_' then .one else .lit c]
  | c :: d :: cs =>
    if esc = some c then .lit d :: items esc cs
    else (if c = '%' then .any else if c = '_' then .one else .lit c) :: items esc (d :: cs)

/-- Whether the places match the whole text. -/
def matchItems (same : Char → Char → Bool) : List Item → List Char → Bool
  | [], s => s.isEmpty
  | .any :: is, s => s.tails.any fun t => matchItems same is t
  | .one :: is, s =>
    match s with
    | [] => false
    | _ :: s => matchItems same is s
  | .lit c :: is, s =>
    match s with
    | [] => false
    | d :: s => same c d && matchItems same is s

/-- `text LIKE pattern ESCAPE esc`. -/
def like (same : Char → Char → Bool) (esc : Option Char) (pattern text : String) : Bool :=
  matchItems same (items esc pattern.toList) text.toList

variable {same : Char → Char → Bool}

/-- A last percent sign matches every text. -/
theorem matchItems_any (s : List Char) : matchItems same [.any] s = true := by
  rw [matchItems, List.any_eq_true]
  exact ⟨[], (List.mem_tails _ _).mpr (List.nil_suffix), rfl⟩

/-! ## Containing a text -/

/-- What a database's comparison of characters may be: at least equality, at most equality up
to the case of ASCII letters. -/
structure Collation (same : Char → Char → Bool) : Prop where
  refl : ∀ c, same c c = true
  ascii : ∀ c d, same c d = true → c.toLower = d.toLower

theorem collation_eq : Collation fun c d => c == d :=
  ⟨fun c => beq_self_eq_true c, fun _ _ h => congrArg Char.toLower (beq_iff_eq.mp h)⟩

/-- A character that is not a letter equals only itself. -/
theorem Collation.eq_of_same (hcol : Collation same) {c d : Char}
    (hc : c.toLower = c ∧ ¬ ('a' ≤ c ∧ c ≤ 'z')) (h : same c d = true) : d = c := by
  have hlow := hcol.ascii c d h
  rw [hc.1] at hlow
  exact GoStrings.eq_of_toLower_eq hc.2 hlow.symm

/-- The text starts with `p`. -/
def startsBy (same : Char → Char → Bool) : List Char → List Char → Bool
  | [], _ => true
  | _ :: _, [] => false
  | c :: p, d :: s => same c d && startsBy same p s

/-- The text has `p` as a part. -/
def contains (same : Char → Char → Bool) (p : List Char) : List Char → Bool
  | [] => startsBy same p []
  | d :: s => startsBy same p (d :: s) || contains same p s

theorem items_plain {text : List Char} (h : '%' ∉ text ∧ '_' ∉ text) (rest : List Char) :
    items none (text ++ rest) = text.map .lit ++ items none rest := by
  induction text with
  | nil => rfl
  | cons c text ih =>
    rw [List.mem_cons, List.mem_cons] at h
    push Not at h
    have ih := ih ⟨h.1.2, h.2.2⟩
    rw [List.cons_append, List.map_cons, List.cons_append, ← ih]
    generalize text ++ rest = tail
    cases tail with
    | nil | cons _ _ => simp [items, Ne.symm h.1.1, Ne.symm h.2.1]

theorem matchItems_starts (text s : List Char) :
    matchItems same (text.map .lit ++ [.any]) s = startsBy same text s := by
  induction text generalizing s with
  | nil => rw [List.map_nil, List.nil_append, matchItems_any, startsBy]
  | cons c text ih =>
    rw [List.map_cons, List.cons_append]
    cases s with
    | nil => rfl
    | cons d s => rw [matchItems, startsBy, ih]

/-- **`LIKE '%text%'`** tests whether the value contains the text. -/
theorem like_contains {text value : String} (h : '%' ∉ text.toList ∧ '_' ∉ text.toList) :
    like same none ("%" ++ text ++ "%") value = contains same text.toList value.toList := by
  have hitems : items none ("%" ++ text ++ "%").toList =
      .any :: (text.toList.map .lit ++ [.any]) := by
    have htail := items_plain h ['%']
    rw [String.toList_append, String.toList_append]
    change items none ('%' :: (text.toList ++ ['%'])) = _
    rw [show ([.any] : List Item) = items none ['%'] from rfl, ← htail]
    generalize text.toList ++ ['%'] = tail
    cases tail with
    | nil => rfl
    | cons d ds => simp [items]
  unfold like
  rw [hitems, matchItems]
  induction value.toList with
  | nil =>
    simp only [List.tails, List.any_cons, List.any_nil, Bool.or_false, matchItems_starts, contains]
  | cons d s ih => rw [List.tails_cons, List.any_cons, ih, matchItems_starts, contains]

end Lib.SqlLike
