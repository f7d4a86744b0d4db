/-
# The durations of Go's package `time`

A text such as "1h30m" is read as numbers with units, one after the other; a number may have a
fraction.  The sum is held in 64 bits, and a text whose sum does not fit is no duration.  A
duration is written with hours, minutes and seconds.

What is written of whole seconds is read back (`parse_text`).  The value of a fraction is
computed in floating point and is a parameter.
-/
import Contenox.Lib.GoStrings
import Mathlib.Tactic.Ring

namespace Lib.GoDuration

/-- `time.Second`. -/
def second : Nat := 1000000000

/-- The units, in nanoseconds.  The letter of "µs" has two code points. -/
def units : List (List Char × Nat) :=
  [(['n', 's'], 1), (['u', 's'], 1000), (['µ', 's'], 1000), (['μ', 's'], 1000),
   (['m', 's'], 1000000), (['s'], second), (['m'], 60 * second), (['h'], 3600 * second)]

/-- The value of a fraction's digits in a unit. -/
abbrev Fraction := List Char → Nat → Nat

variable (fraction : Fraction)

def isUnitChar (c : Char) : Bool := c ≠ '.' && !c.isDigit

/-- One number with its unit, and what follows it. -/
def component (cs : List Char) : Option (Nat × List Char) :=
  let whole := cs.takeWhile Char.isDigit
  let (digits, rest) :=
    match cs.dropWhile Char.isDigit with
    | '.' :: rest => (rest.takeWhile Char.isDigit, rest.dropWhile Char.isDigit)
    | rest => ([], rest)
  let v := Nat.ofDigitChars 10 whole 0
  if whole = [] ∧ digits = [] then none
  else if 2 ^ 63 < v then none
  else
    let letters := rest.takeWhile isUnitChar
    match units.lookup letters with
    | none => none
    | some unit =>
      let v := v * unit + if digits = [] then 0 else fraction digits unit
      if 2 ^ 63 < v then none else some (v, rest.drop letters.length)

/-- The sum of the numbers, of which there are at most so many. -/
def sum : Nat → List Char → Option Nat
  | _, [] => some 0
  | 0, _ :: _ => none
  | fuel + 1, c :: cs =>
    match component fraction (c :: cs) with
    | none => none
    | some (v, rest) => (sum fuel rest).bind fun d => if 2 ^ 63 < v + d then none else some (v + d)

/-- `time.ParseDuration`, in nanoseconds. -/
def parseDuration (s : String) : Option Int :=
  let (neg, cs) :=
    match s.toList with
    | '-' :: cs => (true, cs)
    | '+' :: cs => (false, cs)
    | cs => (false, cs)
  if cs = ['0'] then some 0
  else if cs = [] then none
  else
    (sum fraction cs.length cs).bind fun d =>
      if neg then some (-d) else if 2 ^ 63 ≤ d then none else some d

/-- `Duration.String` of so many seconds. -/
def text (n : Nat) : String :=
  let s := toString (n % 60) ++ "s"
  let m := toString (n / 60 % 60) ++ "m" ++ s
  if n < 60 then s else if n < 3600 then m else toString (n / 3600) ++ "h" ++ m

variable {fraction}

/-- The letters that whole seconds are written with. -/
def letters : List (Char × Nat) := [('h', 3600 * second), ('m', 60 * second), ('s', second)]

variable {n unit : Nat} {c : Char} {rest : List Char}

/-- A number and the letter of its unit are read as that. -/
theorem component_digits (hunit : (c, unit) ∈ letters) (hfit : n * unit ≤ 2 ^ 63)
    (hrest : ∀ d ∈ rest.head?, isUnitChar d = false) :
    component fraction (Nat.toDigits 10 n ++ c :: rest) = some (n * unit, rest) := by
  have hletters : ∀ e ∈ letters, e.1.isDigit = false ∧ isUnitChar e.1 = true ∧
      units.lookup [e.1] = some e.2 ∧ 0 < e.2 := by decide
  obtain ⟨hdigit, hletter, hlookup, hpos⟩ := hletters _ hunit
  have hdigits : ∀ d ∈ Nat.toDigits 10 n, d.isDigit = true := GoStrings.isDigit_toDigits
  have htake : (Nat.toDigits 10 n ++ c :: rest).takeWhile Char.isDigit = Nat.toDigits 10 n := by
    rw [List.takeWhile_append_of_pos hdigits, List.takeWhile_cons_of_neg (by simp [hdigit]),
      List.append_nil]
  have hdrop : (Nat.toDigits 10 n ++ c :: rest).dropWhile Char.isDigit = c :: rest := by
    rw [List.dropWhile_append_of_pos hdigits, List.dropWhile_cons_of_neg (by simp [hdigit])]
  have hone : (c :: rest).takeWhile isUnitChar = [c] := by
    rw [List.takeWhile_cons_of_pos hletter]
    cases rest with
    | nil => rfl
    | cons d rest => rw [List.takeWhile_cons_of_neg (by simp [hrest d rfl])]
  have hdot : c ≠ '.' := by
    rintro rfl
    cases hletter
  have hle : n ≤ 2 ^ 63 := (Nat.le_mul_of_pos_right n hpos).trans hfit
  unfold component
  simp only [htake, hdrop]
  split
  · next heq => exact absurd (List.cons.inj heq).1 hdot
  · simp only [hone, hlookup, Nat.ofDigitChars_ten_toDigits, Nat.toDigits_ne_nil, false_and, if_false,
      if_true, Nat.add_zero, if_neg hle.not_gt, if_neg hfit.not_gt]
    rfl

/-- A number is added to the sum of what follows it. -/
theorem sum_digits {d fuel : Nat} (hunit : (c, unit) ∈ letters)
    (hrest : ∀ d ∈ rest.head?, isUnitChar d = false) (hsum : sum fraction fuel rest = some d)
    (hfit : n * unit + d ≤ 2 ^ 63) :
    sum fraction (fuel + 1) (Nat.toDigits 10 n ++ c :: rest) = some (n * unit + d) := by
  have hc : component fraction (Nat.toDigits 10 n ++ c :: rest) = some (n * unit, rest) :=
    component_digits hunit (by omega) hrest
  obtain ⟨x, xs, hcons⟩ := List.exists_cons_of_ne_nil
    (show Nat.toDigits 10 n ++ c :: rest ≠ [] by simp)
  rw [hcons] at hc ⊢
  simp only [sum, hc, hsum, Option.bind_some, if_neg hfit.not_gt]

/-- What is written starts with a digit. -/
theorem head_digits (n : Nat) (cs : List Char) :
    ∃ d ds, Nat.toDigits 10 n ++ cs = d :: ds ∧ d.isDigit = true := by
  obtain ⟨d, ds, hd⟩ := List.exists_cons_of_ne_nil (Nat.toDigits_ne_nil (n := n) (b := 10))
  refine ⟨d, ds ++ cs, by rw [hd]; rfl, ?_⟩
  exact GoStrings.isDigit_toDigits (n := n) d (by simp [hd])

theorem isUnitChar_head_digits (n : Nat) (cs : List Char) :
    ∀ d ∈ (Nat.toDigits 10 n ++ cs).head?, isUnitChar d = false := by
  obtain ⟨x, xs, hcons, hdigit⟩ := head_digits n cs
  rw [hcons]
  rintro d ⟨⟩
  simp [isUnitChar, hdigit]

theorem toList_text (n : Nat) : (text n).toList =
    if n < 60 then Nat.toDigits 10 (n % 60) ++ ['s']
    else if n < 3600 then Nat.toDigits 10 (n / 60 % 60) ++ 'm' :: (Nat.toDigits 10 (n % 60) ++ ['s'])
    else Nat.toDigits 10 (n / 3600) ++
      'h' :: (Nat.toDigits 10 (n / 60 % 60) ++ 'm' :: (Nat.toDigits 10 (n % 60) ++ ['s'])) := by
  unfold text
  dsimp only
  split_ifs <;> simp

/-- **The numbers of a written duration add up to it.** -/
theorem sum_text (h : n * second ≤ 2 ^ 63) :
    sum fraction (text n).toList.length (text n).toList = some (n * second) := by
  have hsplit : n / 3600 * (3600 * second) + (n / 60 % 60 * (60 * second) + (n % 60 * second + 0)) =
      n * second := by
    have hn : n = n / 3600 * 3600 + (n / 60 % 60 * 60 + n % 60) := by omega
    conv_rhs => rw [hn]
    ring
  have hs : ∀ f, sum fraction (f + 1) (Nat.toDigits 10 (n % 60) ++ ['s']) =
      some (n % 60 * second + 0) := by
    intro f
    exact sum_digits (by simp [letters]) (by simp) (by simp [sum]) (by omega)
  have hm : ∀ f, sum fraction (f + 2)
      (Nat.toDigits 10 (n / 60 % 60) ++ 'm' :: (Nat.toDigits 10 (n % 60) ++ ['s'])) =
        some (n / 60 % 60 * (60 * second) + (n % 60 * second + 0)) := by
    intro f
    exact sum_digits (by simp [letters]) (isUnitChar_head_digits _ _) (hs f) (by omega)
  -- each number has a digit at least, so its characters are enough of a bound
  have hlength : ∀ (k : Nat) (c : Char) (cs : List Char),
      (Nat.toDigits 10 k ++ c :: cs).length = (Nat.toDigits 10 k).length + cs.length + 1 := by
    intro k c cs
    rw [List.length_append, List.length_cons, Nat.add_assoc]
  rw [toList_text, ← hsplit]
  split_ifs with hn hn'
  · rw [hlength, hs, Nat.div_eq_of_lt (show n < 3600 by omega), Nat.div_eq_of_lt hn]
    simp
  · rw [hlength, hlength, Nat.div_eq_of_lt hn', Nat.zero_mul, Nat.zero_add]
    exact hm _
  · rw [hlength, hlength, hlength]
    exact sum_digits (by simp [letters]) (isUnitChar_head_digits _ _) (hm _) (by omega)

/-- What is written is more than one character, and the first is a digit. -/
theorem text_cons (n : Nat) : ∃ d d' ds, (text n).toList = d :: d' :: ds ∧ d.isDigit = true := by
  have hlong : ∀ (k : Nat) (c : Char) (cs : List Char),
      ∃ d d' ds, Nat.toDigits 10 k ++ c :: cs = d :: d' :: ds ∧ d.isDigit = true := by
    intro k c cs
    obtain ⟨d, ds, hcons, hdigit⟩ := head_digits k (c :: cs)
    cases ds with
    | nil =>
      have hlen := congrArg List.length hcons
      have hpos := Nat.length_toDigits_pos (b := 10) (n := k)
      simp at hlen
      omega
    | cons d' ds => exact ⟨d, d', ds, hcons, hdigit⟩
  rw [toList_text]
  split_ifs <;> exact hlong _ _ _

/-- What is written has no white space. -/
theorem isSpace_text (n : Nat) : ∀ c ∈ (text n).toList, GoStrings.isSpace c = false := by
  have hadd : ∀ (k : Nat) {c : Char} {cs : List Char}, GoStrings.isSpace c = false →
      (∀ x ∈ cs, GoStrings.isSpace x = false) →
        ∀ x ∈ Nat.toDigits 10 k ++ c :: cs, GoStrings.isSpace x = false := by
    intro k c cs hc hcs
    refine List.forall_mem_append.mpr ⟨fun x hx => ?_, List.forall_mem_cons.mpr ⟨hc, hcs⟩⟩
    exact GoStrings.isSpace_of_isDigit (GoStrings.isDigit_toDigits x hx)
  have hs : ∀ x ∈ Nat.toDigits 10 (n % 60) ++ ['s'], GoStrings.isSpace x = false :=
    hadd _ rfl (by simp)
  have hm := hadd (n / 60 % 60) (c := 'm') rfl hs
  rw [toList_text]
  split_ifs
  · exact hs
  · exact hm
  · exact hadd _ rfl hm

/-- **What is written of whole seconds is read back.** -/
theorem parse_text (h : n * second < 2 ^ 63) :
    parseDuration fraction (text n) = some ((n * second : Nat) : Int) := by
  obtain ⟨d, d', ds, hcons, hdigit⟩ := text_cons n
  have hsum : sum fraction _ _ = some (n * second) := sum_text h.le
  have hsign : d ≠ '-' ∧ d ≠ '+' := by
    constructor <;> rintro rfl <;> cases hdigit
  unfold parseDuration
  rw [hcons] at hsum ⊢
  split
  next neg cs heq =>
  split at heq
  · next hminus => exact absurd (List.cons.inj hminus).1 hsign.1
  · next hplus => exact absurd (List.cons.inj hplus).1 hsign.2
  · obtain ⟨rfl, rfl⟩ := Prod.mk.inj heq
    have hne : d :: d' :: ds ≠ ['0'] := by simp
    rw [if_neg hne, if_neg (List.cons_ne_nil _ _), hsum, Option.bind_some,
      if_neg Bool.false_ne_true, if_neg h.not_ge]

end Lib.GoDuration
