/-
# The string functions of Go's standard library

The functions of `strings`, `unicode` and `path` that the modelled code calls, on Lean
strings.  They are written on lists of characters, so that they evaluate and so that a proof
about them is a proof by induction on a list.

`fields` is the one that arguments about command lines turn on: it splits at WHITE SPACE,
and a line break is white space to it.
-/
import Mathlib.Algebra.Group.Int.Defs
import Mathlib.Algebra.Group.Nat.Defs
import Mathlib.Data.List.DropRight
import Mathlib.Data.List.Infix
import Mathlib.Data.List.TakeWhile

namespace Lib.GoStrings

/-- `unicode.IsSpace`. -/
def isSpace (c : Char) : Bool :=
  let n := c.toNat
  (9 ≤ n && n ≤ 13) || n = 32 || n = 0x85 || n = 0xA0 || n = 0x1680 ||
    (0x2000 ≤ n && n ≤ 0x200A) || n = 0x2028 || n = 0x2029 || n = 0x202F || n = 0x205F ||
    n = 0x3000

/-! ## 1. Trimming -/

/-- The characters without leading and trailing white space. -/
def trimChars (l : List Char) : List Char :=
  ((l.dropWhile isSpace).reverse.dropWhile isSpace).reverse

/-- `strings.TrimSpace`. -/
def trimSpace (s : String) : String := String.ofList (trimChars s.toList)

/-! ## 2. Splitting and joining -/

/-- The words of `l`, the characters `cur` being the start of the first one. -/
def fieldsFrom (cur : List Char) : List Char → List (List Char)
  | [] => if cur = [] then [] else [cur]
  | c :: cs =>
    if isSpace c then
      if cur = [] then fieldsFrom [] cs else cur :: fieldsFrom [] cs
    else fieldsFrom (cur ++ [c]) cs

/-- `strings.Fields`. -/
def fields (s : String) : List String := (fieldsFrom [] s.toList).map String.ofList

/-- The pieces of `l` between the separators, `cur` being the start of the first one. -/
def splitFrom (sep : Char) (cur : List Char) : List Char → List (List Char)
  | [] => [cur]
  | c :: cs => if c = sep then cur :: splitFrom sep [] cs else splitFrom sep (cur ++ [c]) cs

/-- `strings.Split` at a separator of one character. -/
def split (s : String) (sep : Char) : List String :=
  (splitFrom sep [] s.toList).map String.ofList

/-- `strings.Join`. -/
def join (sep : String) : List String → String
  | [] => ""
  | [w] => w
  | w :: ws => w ++ sep ++ join sep ws

/-! ## 3. Searching -/

/-- `strings.HasPrefix`. -/
def hasPrefix (s p : String) : Bool := p.toList.isPrefixOf s.toList

/-- `strings.HasSuffix`. -/
def hasSuffix (s p : String) : Bool := p.toList.isSuffixOf s.toList

/-- `strings.Contains`. -/
def contains (s sub : String) : Bool := s.toList.tails.any fun t => sub.toList.isPrefixOf t

/-- `strings.ContainsAny`. -/
def containsAny (s chars : String) : Bool := s.toList.any fun c => chars.toList.contains c

/-- The characters with every occurrence of `old` replaced, from left to right and without
overlap; `skip` counts the characters of the last occurrence still to be passed over. -/
def replaceFrom (old new : List Char) : Nat → List Char → List Char
  | _, [] => []
  | skip + 1, _ :: cs => replaceFrom old new skip cs
  | 0, c :: cs =>
    if old.isPrefixOf (c :: cs) then new ++ replaceFrom old new (old.length - 1) cs
    else c :: replaceFrom old new 0 cs

/-- `strings.ReplaceAll`, for an `old` that is not empty. -/
def replaceAll (s old new : String) : String :=
  String.ofList (replaceFrom old.toList new.toList 0 s.toList)

/-- `strings.NewReplacer(...).Replace`: at each place the first pair that fits, after `skip` characters
that are already replaced.  No pair replaces the empty text. -/
def replacerFrom (pairs : List (List Char × List Char)) : Nat → List Char → List Char
  | _, [] => []
  | skip + 1, _ :: cs => replacerFrom pairs skip cs
  | 0, c :: cs =>
    match pairs.find? fun p => p.1.isPrefixOf (c :: cs) with
    | some p => p.2 ++ replacerFrom pairs (p.1.length - 1) cs
    | none => c :: replacerFrom pairs 0 cs

def replacer (pairs : List (String × String)) (s : String) : String :=
  String.ofList (replacerFrom (pairs.map fun p => (p.1.toList, p.2.toList)) 0 s.toList)

/-- The occurrences of `sub`, counted as `replaceFrom` meets them. -/
def countFrom (sub : List Char) : Nat → List Char → Nat
  | _, [] => 0
  | skip + 1, _ :: cs => countFrom sub skip cs
  | 0, c :: cs =>
    if sub.isPrefixOf (c :: cs) then countFrom sub (sub.length - 1) cs + 1
    else countFrom sub 0 cs

/-- `strings.Count`, for a `sub` that is not empty. -/
def count (s sub : String) : Nat := countFrom sub.toList 0 s.toList

/-! ## 4. Letter case -/

/-- The lower case letters beyond ASCII, by ranges of code points: how far each letter of a range
is from its lower case, or 0 where upper and lower case take turns. -/
def lowerRanges : List (Nat × Nat × Int) :=
  [(0xC0, 0xD6, 32), (0xD8, 0xDE, 32), (0x100, 0x12F, 0), (0x130, 0x130, -199), (0x132, 0x137, 0),
   (0x139, 0x148, 0), (0x14A, 0x177, 0), (0x178, 0x178, -121), (0x179, 0x17E, 0),
   (0x181, 0x181, 210), (0x182, 0x185, 0), (0x186, 0x186, 206), (0x187, 0x188, 0),
   (0x189, 0x18A, 205), (0x18B, 0x18C, 0), (0x18E, 0x18E, 79), (0x18F, 0x18F, 202),
   (0x190, 0x190, 203), (0x191, 0x192, 0), (0x193, 0x193, 205), (0x194, 0x194, 207),
   (0x196, 0x196, 211), (0x197, 0x197, 209), (0x198, 0x199, 0), (0x19C, 0x19C, 211),
   (0x19D, 0x19D, 213), (0x19F, 0x19F, 214), (0x1A0, 0x1A5, 0), (0x1A6, 0x1A6, 218),
   (0x1A7, 0x1A8, 0), (0x1A9, 0x1A9, 218), (0x1AC, 0x1AD, 0), (0x1AE, 0x1AE, 218),
   (0x1AF, 0x1B0, 0), (0x1B1, 0x1B2, 217), (0x1B3, 0x1B6, 0), (0x1B7, 0x1B7, 219),
   (0x1B8, 0x1B9, 0), (0x1BC, 0x1BD, 0), (0x1C4, 0x1C4, 2), (0x1C5, 0x1C6, 0), (0x1C7, 0x1C7, 2),
   (0x1C8, 0x1C9, 0), (0x1CA, 0x1CA, 2), (0x1CB, 0x1DC, 0), (0x1DE, 0x1EF, 0), (0x1F1, 0x1F1, 2),
   (0x1F2, 0x1F5, 0), (0x1F6, 0x1F6, -97), (0x1F7, 0x1F7, -56), (0x1F8, 0x21F, 0),
   (0x220, 0x220, -130), (0x222, 0x233, 0), (0x23A, 0x23A, 10795), (0x23B, 0x23C, 0),
   (0x23D, 0x23D, -163), (0x23E, 0x23E, 10792), (0x241, 0x242, 0), (0x243, 0x243, -195),
   (0x244, 0x244, 69), (0x245, 0x245, 71), (0x246, 0x24F, 0), (0x370, 0x373, 0), (0x376, 0x377, 0),
   (0x37F, 0x37F, 116), (0x386, 0x386, 38), (0x388, 0x38A, 37), (0x38C, 0x38C, 64),
   (0x38E, 0x38F, 63), (0x391, 0x3A1, 32), (0x3A3, 0x3AB, 32), (0x3CF, 0x3CF, 8),
   (0x3D8, 0x3EF, 0), (0x3F4, 0x3F4, -60), (0x3F7, 0x3F8, 0), (0x3F9, 0x3F9, -7),
   (0x3FA, 0x3FB, 0), (0x3FD, 0x3FF, -130), (0x400, 0x40F, 80), (0x410, 0x42F, 32),
   (0x460, 0x481, 0), (0x48A, 0x4BF, 0), (0x4C0, 0x4C0, 15), (0x4C1, 0x4CE, 0), (0x4D0, 0x52F, 0),
   (0x531, 0x556, 48), (0x10A0, 0x10C5, 7264), (0x10C7, 0x10C7, 7264), (0x10CD, 0x10CD, 7264),
   (0x13A0, 0x13EF, 38864), (0x13F0, 0x13F5, 8), (0x1C90, 0x1CBA, -3008), (0x1CBD, 0x1CBF, -3008),
   (0x1E00, 0x1E95, 0), (0x1E9E, 0x1E9E, -7615), (0x1EA0, 0x1EFF, 0), (0x1F08, 0x1F0F, -8),
   (0x1F18, 0x1F1D, -8), (0x1F28, 0x1F2F, -8), (0x1F38, 0x1F3F, -8), (0x1F48, 0x1F4D, -8),
   (0x1F59, 0x1F59, -8), (0x1F5B, 0x1F5B, -8), (0x1F5D, 0x1F5D, -8), (0x1F5F, 0x1F5F, -8),
   (0x1F68, 0x1F6F, -8), (0x1F88, 0x1F8F, -8), (0x1F98, 0x1F9F, -8), (0x1FA8, 0x1FAF, -8),
   (0x1FB8, 0x1FB9, -8), (0x1FBA, 0x1FBB, -74), (0x1FBC, 0x1FBC, -9), (0x1FC8, 0x1FCB, -86),
   (0x1FCC, 0x1FCC, -9), (0x1FD8, 0x1FD9, -8), (0x1FDA, 0x1FDB, -100), (0x1FE8, 0x1FE9, -8),
   (0x1FEA, 0x1FEB, -112), (0x1FEC, 0x1FEC, -7), (0x1FF8, 0x1FF9, -128), (0x1FFA, 0x1FFB, -126),
   (0x1FFC, 0x1FFC, -9), (0x2126, 0x2126, -7517), (0x212A, 0x212A, -8383), (0x212B, 0x212B, -8262),
   (0x2132, 0x2132, 28), (0x2160, 0x216F, 16), (0x2183, 0x2184, 0), (0x24B6, 0x24CF, 26),
   (0x2C00, 0x2C2F, 48), (0x2C60, 0x2C61, 0), (0x2C62, 0x2C62, -10743), (0x2C63, 0x2C63, -3814),
   (0x2C64, 0x2C64, -10727), (0x2C67, 0x2C6C, 0), (0x2C6D, 0x2C6D, -10780),
   (0x2C6E, 0x2C6E, -10749), (0x2C6F, 0x2C6F, -10783), (0x2C70, 0x2C70, -10782),
   (0x2C72, 0x2C73, 0), (0x2C75, 0x2C76, 0), (0x2C7E, 0x2C7F, -10815), (0x2C80, 0x2CE3, 0),
   (0x2CEB, 0x2CEE, 0), (0x2CF2, 0x2CF3, 0), (0xA640, 0xA66D, 0), (0xA680, 0xA69B, 0),
   (0xA722, 0xA72F, 0), (0xA732, 0xA76F, 0), (0xA779, 0xA77C, 0), (0xA77D, 0xA77D, -35332),
   (0xA77E, 0xA787, 0), (0xA78B, 0xA78C, 0), (0xA78D, 0xA78D, -42280), (0xA790, 0xA793, 0),
   (0xA796, 0xA7A9, 0), (0xA7AA, 0xA7AA, -42308), (0xA7AB, 0xA7AB, -42319),
   (0xA7AC, 0xA7AC, -42315), (0xA7AD, 0xA7AD, -42305), (0xA7AE, 0xA7AE, -42308),
   (0xA7B0, 0xA7B0, -42258), (0xA7B1, 0xA7B1, -42282), (0xA7B2, 0xA7B2, -42261),
   (0xA7B3, 0xA7B3, 928), (0xA7B4, 0xA7C3, 0), (0xA7C4, 0xA7C4, -48), (0xA7C5, 0xA7C5, -42307),
   (0xA7C6, 0xA7C6, -35384), (0xA7C7, 0xA7CA, 0), (0xA7D0, 0xA7D1, 0), (0xA7D6, 0xA7D9, 0),
   (0xA7F5, 0xA7F6, 0), (0xFF21, 0xFF3A, 32), (0x10400, 0x10427, 40), (0x104B0, 0x104D3, 40),
   (0x10570, 0x1057A, 39), (0x1057C, 0x1058A, 39), (0x1058C, 0x10592, 39), (0x10594, 0x10595, 39),
   (0x10C80, 0x10CB2, 64), (0x118A0, 0x118BF, 32), (0x16E40, 0x16E5F, 32), (0x1E900, 0x1E921, 34)]

/-- What the table makes of a code point. -/
def lowerPoint (n : Nat) : Nat :=
  match lowerRanges.find? fun r => r.1 ≤ n ∧ n ≤ r.2.1 with
  | none => n
  | some (lo, _, delta) => (n + if delta = 0 then (n - lo + 1 : Int) % 2 else delta).toNat

/-- `unicode.ToLower`. -/
def lower (c : Char) : Char :=
  if c.toNat < 128 then c.toLower else Char.ofNat (lowerPoint c.toNat)

/-- `strings.ToLower`. -/
def toLower (s : String) : String := String.ofList (s.toList.map lower)

/-- The characters whose lower case letter is not what `unicode.SimpleFold` takes them for. -/
def foldings : List (Nat × Nat) :=
  [(0xB5, 0x3BC), (0x130, 0x130), (0x17F, 0x73), (0x345, 0x3B9), (0x3C2, 0x3C3), (0x3D0, 0x3B2),
   (0x3D1, 0x3B8), (0x3D5, 0x3C6), (0x3D6, 0x3C0), (0x3F0, 0x3BA), (0x3F1, 0x3C1), (0x3F5, 0x3B5),
   (0x1C80, 0x432), (0x1C81, 0x434), (0x1C82, 0x43E), (0x1C83, 0x441), (0x1C84, 0x442),
   (0x1C85, 0x442), (0x1C86, 0x44A), (0x1C87, 0x463), (0x1C88, 0xA64B), (0x1E9B, 0x1E61),
   (0x1FBE, 0x3B9)]

/-- One character for all those that `unicode.SimpleFold` goes round. -/
def fold (c : Char) : Char :=
  match foldings.find? (·.1 = c.toNat) with
  | some e => Char.ofNat e.2
  | none => lower c

/-- `strings.EqualFold`. -/
def equalFold (s t : String) : Bool := s.toList.map fold = t.toList.map fold

/-! ## 5. Numbers -/

def digitsValue (ds : List Char) : Option Nat :=
  if ds ≠ [] ∧ ds.all Char.isDigit then some (Nat.ofDigitChars 10 ds 0) else none

def signedValue : List Char → Option Int
  | '-' :: ds => (digitsValue ds).map fun n => -(n : Int)
  | '+' :: ds => (digitsValue ds).map Int.ofNat
  | ds => (digitsValue ds).map Int.ofNat

/-- `strconv.Atoi`: decimal digits after a sign or none, of a value that an `int` can hold. -/
def atoi (s : String) : Option Int :=
  (signedValue s.toList).filter fun n => -2 ^ 63 ≤ n ∧ n < 2 ^ 63

/-! ## 6. Slash-separated paths -/

/-- `path.IsAbs`. -/
def isAbs (p : String) : Bool := hasPrefix p "/"

/-- `path.Base`: the last element, trailing slashes removed. -/
def base (p : String) : String :=
  if p = "" then "."
  else
    let tail := (p.toList.reverse.dropWhile (· = '/')).takeWhile (· ≠ '/')
    if tail = [] then "/" else String.ofList tail.reverse

/-- One element of a path against the elements kept so far, last one first: `.` and the
empty one vanish, and `..` takes the element before it away. -/
def cleanElem (rooted : Bool) (out : List String) (e : String) : List String :=
  if e = "" ∨ e = "." then out
  else if e = ".." then
    match out with
    | [] => if rooted then [] else [".."]
    | top :: rest => if top = ".." then ".." :: out else rest
  else e :: out

/-- `path.Clean`. -/
def clean (p : String) : String :=
  let rooted := isAbs p
  let out := ((split p '/').foldl (cleanElem rooted) []).reverse
  if rooted then "/" ++ join "/" out
  else if out = [] then "." else join "/" out

/-! ## 7. What the words of a string look like -/

variable {l : List Char}

theorem fieldsFrom_no_space {cur : List Char} (hcur : ∀ c ∈ cur, isSpace c = false) :
    ∀ w ∈ fieldsFrom cur l, w ≠ [] ∧ ∀ c ∈ w, isSpace c = false := by
  induction l generalizing cur with
  | nil =>
    intro w hw
    by_cases hc : cur = []
    · simp [fieldsFrom, hc] at hw
    · simp only [fieldsFrom, hc, if_false, List.mem_singleton] at hw
      exact hw ▸ ⟨hc, hcur⟩
  | cons a l ih =>
    intro w hw
    by_cases ha : isSpace a = true
    · by_cases hc : cur = []
      · simp only [fieldsFrom, ha, hc, if_true] at hw
        exact ih (by simp) w hw
      simp only [fieldsFrom, ha, hc, if_true, if_false, List.mem_cons] at hw
      rcases hw with rfl | hw
      · exact ⟨hc, hcur⟩
      · exact ih (by simp) w hw
    · simp only [fieldsFrom, ha, if_false, Bool.false_eq_true] at hw
      refine ih (List.forall_mem_append.mpr ⟨hcur, List.forall_mem_singleton.mpr ?_⟩) w hw
      simpa using ha

variable {c : Char}

variable {s : String}

/-- What trimming takes away is white space. -/
theorem trimSpace_split (s : String) : ∃ front back,
    s.toList = front ++ ((trimSpace s).toList ++ back) ∧ ∀ c ∈ front ++ back, isSpace c = true := by
  refine ⟨s.toList.takeWhile isSpace,
    ((s.toList.dropWhile isSpace).reverse.takeWhile isSpace).reverse, ?_, ?_⟩
  · rw [trimSpace, String.toList_ofList, trimChars, ← List.reverse_append,
      List.takeWhile_append_dropWhile, List.reverse_reverse, List.takeWhile_append_dropWhile]
  · intro c hc
    rcases List.mem_append.mp hc with hc | hc
    · exact List.mem_takeWhile_imp hc
    · exact List.mem_takeWhile_imp (List.mem_reverse.mp hc)

theorem mem_trimSpace (hc : c ∈ s.toList) (hs : isSpace c = false) : c ∈ (trimSpace s).toList := by
  obtain ⟨front, back, heq, hspace⟩ := trimSpace_split s
  by_contra hnot
  have hcut : c ∈ front ++ back := by simpa [heq, hnot] using hc
  cases hs.symm.trans (hspace c hcut)

/-- Only a blank string is trimmed away. -/
theorem exists_mem_of_trimSpace_ne (h : trimSpace s ≠ "") : ∃ c ∈ s.toList, isSpace c = false := by
  by_contra hall
  push Not at hall
  apply h
  have hdrop : s.toList.dropWhile isSpace = [] :=
    List.dropWhile_eq_nil_iff.mpr fun c hc => by simpa using hall c hc
  unfold trimSpace trimChars
  rw [hdrop]
  rfl

theorem ne_of_trimSpace_ne (h : trimSpace s ≠ "") : s ≠ "" := by
  rintro rfl
  exact h rfl

/-- What trimming leaves is not blank. -/
theorem exists_of_trimSpace_ne (h : trimSpace s ≠ "") :
    ∃ c ∈ (trimSpace s).toList, isSpace c = false := by
  obtain ⟨c, hc, hs⟩ := exists_mem_of_trimSpace_ne h
  exact ⟨c, mem_trimSpace hc hs, hs⟩

theorem trimSpace_ne_of_mem (hc : c ∈ s.toList) (hs : isSpace c = false) : trimSpace s ≠ "" := by
  intro h
  have hmem := mem_trimSpace hc hs
  rw [h] at hmem
  cases hmem

/-- A string without white space at either end is its own trimming. -/
theorem trimSpace_of_no_space (h : ∀ c ∈ s.toList, isSpace c = false) : trimSpace s = s := by
  have drop (l : List Char) (hl : ∀ c ∈ l, isSpace c = false) : l.dropWhile isSpace = l :=
    List.dropWhile_eq_self_iff.mpr fun hpos => by simp [hl _ (List.getElem_mem hpos)]
  unfold trimSpace trimChars
  rw [drop _ h, drop _ (fun c hc => h c (List.mem_reverse.mp hc)), List.reverse_reverse]
  exact String.ofList_toList

theorem isDigit_toNat (h : c.isDigit = true) : 48 ≤ c.toNat ∧ c.toNat ≤ 57 := by
  rw [Char.isDigit, Bool.and_eq_true, decide_eq_true_iff, decide_eq_true_iff] at h
  exact ⟨UInt32.le_iff_toNat_le.mp h.1, UInt32.le_iff_toNat_le.mp h.2⟩

theorem isSpace_of_isDigit (h : c.isDigit = true) : isSpace c = false := by
  have hbounds := isDigit_toNat h
  simp only [isSpace, Bool.or_eq_false_iff, Bool.and_eq_false_iff, decide_eq_false_iff_not]
  omega

theorem isDigit_toDigits {n : Nat} : ∀ c ∈ Nat.toDigits 10 n, c.isDigit = true :=
  fun _ hc => Nat.isDigit_of_mem_toDigits (by decide) (by decide) hc

/-- A number is written without blanks. -/
theorem trimSpace_toString (n : Nat) : trimSpace (toString n) = toString n := by
  refine trimSpace_of_no_space fun c hc => isSpace_of_isDigit ?_
  change c ∈ (Nat.repr n).toList at hc
  rw [Nat.toList_repr] at hc
  exact isDigit_toDigits c hc

/-- **What is written of a number is read back.** -/
theorem atoi_toString {n : Nat} (h : n < 2 ^ 63) : atoi (toString n) = some (n : Int) := by
  have hval : digitsValue (Nat.toDigits 10 n) = some n := by
    rw [digitsValue, if_pos ⟨Nat.toDigits_ne_nil, List.all_eq_true.mpr isDigit_toDigits⟩,
      Nat.ofDigitChars_ten_toDigits]
  have hsign : ∀ {c : Char} {ds : List Char}, Nat.toDigits 10 n = c :: ds → c.isDigit = true :=
    fun heq => isDigit_toDigits _ (by rw [heq]; exact List.mem_cons_self)
  have hsigned : signedValue (Nat.toDigits 10 n) = some (n : Int) := by
    unfold signedValue
    split
    · next heq => exact absurd (hsign heq) (by decide)
    · next heq => exact absurd (hsign heq) (by decide)
    · rw [hval]
      rfl
  have hfits : decide (-2 ^ 63 ≤ (n : Int) ∧ (n : Int) < 2 ^ 63) = true :=
    decide_eq_true (by omega)
  unfold atoi
  rw [show (toString n).toList = Nat.toDigits 10 n from Nat.toList_repr, hsigned,
    Option.filter_some, hfits]
  exact if_pos rfl

/-- The first character that trimming the end leaves is the first one there was. -/
theorem dropWhile_reverse_dropWhile (h : l.dropWhile isSpace = l) :
    ((l.reverse.dropWhile isSpace).reverse).dropWhile isSpace =
      (l.reverse.dropWhile isSpace).reverse := by
  have hpre : (l.reverse.dropWhile isSpace).reverse <+: l := List.rdropWhile_prefix isSpace l
  rw [List.dropWhile_eq_self_iff] at h ⊢
  intro hpos
  rw [hpre.getElem]
  exact h (hpos.trans_le hpre.length_le)

/-- Trimming once is trimming for good. -/
theorem trimSpace_trimSpace (s : String) : trimSpace (trimSpace s) = trimSpace s := by
  have h := dropWhile_reverse_dropWhile (List.dropWhile_idempotent isSpace s.toList)
  simp only [trimSpace, trimChars, String.toList_ofList, h, List.reverse_reverse,
    List.dropWhile_idempotent]

/-- There is a word as soon as there is anything but white space. -/
theorem isSpace_of_fieldsFrom_eq_nil {cur : List Char} (h : fieldsFrom cur l = []) :
    cur = [] ∧ ∀ c ∈ l, isSpace c = true := by
  induction l generalizing cur with
  | nil => simpa [fieldsFrom] using h
  | cons a l ih =>
    unfold fieldsFrom at h
    split at h
    · next ha =>
      split at h
      · next hc => exact ⟨hc, List.forall_mem_cons.mpr ⟨ha, (ih h).2⟩⟩
      · cases h
    · exact absurd (ih h).1 (by simp)

/-- A string that is not blank has a word. -/
theorem fields_ne_nil (h : trimSpace s ≠ "") : fields s ≠ [] := by
  intro hnil
  obtain ⟨c, hc, hs⟩ := exists_mem_of_trimSpace_ne h
  cases hs.symm.trans ((isSpace_of_fieldsFrom_eq_nil (List.map_eq_nil_iff.mp hnil)).2 c hc)

/-- A word is not empty, and trimming leaves it alone. -/
theorem trimSpace_of_mem_fields {w : String} (h : w ∈ fields s) : w ≠ "" ∧ trimSpace w = w := by
  obtain ⟨l, hl, rfl⟩ := List.mem_map.mp h
  obtain ⟨hne, hsp⟩ := fieldsFrom_no_space (by simp) l hl
  refine ⟨fun he => hne ?_, trimSpace_of_no_space (by simpa using hsp)⟩
  simpa using congrArg String.toList he

theorem hasPrefix_iff {lead : String} :
    hasPrefix s lead = true ↔ ∃ rest : String, s = lead ++ rest := by
  unfold hasPrefix
  rw [List.isPrefixOf_iff_prefix]
  constructor
  · rintro ⟨rest, h⟩
    refine ⟨String.ofList rest, ?_⟩
    rw [← String.toList_inj, String.toList_append, String.toList_ofList, h]
  · rintro ⟨rest, rfl⟩
    exact ⟨rest.toList, by rw [String.toList_append]⟩

theorem splitFrom_append {sep : Char} {w : List Char} (h : sep ∉ w) (cur rest : List Char) :
    splitFrom sep cur (w ++ rest) = splitFrom sep (cur ++ w) rest := by
  induction w generalizing cur with
  | nil => simp
  | cons c w ih =>
    rw [List.mem_cons, not_or] at h
    obtain ⟨hne, h⟩ := h
    rw [List.cons_append, splitFrom, if_neg (Ne.symm hne), ih h, List.append_assoc]
    rfl

theorem splitFrom_ne_nil (sep : Char) (cur l : List Char) : splitFrom sep cur l ≠ [] := by
  induction l generalizing cur with
  | nil => exact List.cons_ne_nil _ _
  | cons c l ih =>
    rw [splitFrom]
    split
    · exact List.cons_ne_nil _ _
    · exact ih _

theorem eq_of_splitFrom {sep : Char} {cur l x : List Char} (h : splitFrom sep cur l = [x]) :
    x = cur ++ l := by
  induction l generalizing cur with
  | nil => simpa [splitFrom] using h.symm
  | cons c l ih =>
    rw [splitFrom] at h
    split at h
    · exact absurd (List.cons.inj h).2 (splitFrom_ne_nil _ _ _)
    · simpa using ih h

/-- A list joined at a character that no entry has is split into its entries. -/
theorem split_join {sep : Char} {l : List String} (hne : l ≠ []) (h : ∀ w ∈ l, sep ∉ w.toList) :
    split (join (String.singleton sep) l) sep = l := by
  unfold split
  induction l with
  | nil => exact absurd rfl hne
  | cons w ws ih =>
    have hw := h w List.mem_cons_self
    cases ws with
    | nil =>
      have hone := splitFrom_append hw [] []
      rw [List.append_nil] at hone
      rw [join, hone]
      simp [splitFrom]
    | cons w' ws =>
      have hrest := ih (List.cons_ne_nil _ _) fun x hx => h x (List.mem_cons_of_mem _ hx)
      rw [join, String.toList_append, String.toList_append, List.append_assoc, splitFrom_append hw]
      · simp only [List.nil_append, String.toList_singleton, List.singleton_append, splitFrom,
          if_true, List.map_cons, String.ofList_toList, hrest]
      · exact List.cons_ne_nil _ _

/-- A joined list starts with an entry and ends with one. -/
theorem join_ends (sep : String) {l : List String} (hne : l ≠ []) :
    (∃ w ∈ l, ∃ rest, (join sep l).toList = w.toList ++ rest) ∧
      ∃ w ∈ l, ∃ front, (join sep l).toList = front ++ w.toList := by
  induction l with
  | nil => exact absurd rfl hne
  | cons w ws ih =>
    cases ws with
    | nil => exact ⟨⟨w, List.mem_cons_self, [], by simp [join]⟩, w, List.mem_cons_self, [], rfl⟩
    | cons w' ws =>
      obtain ⟨-, last, hmem, front, hlast⟩ := ih (List.cons_ne_nil _ _)
      have hjoin : (join sep (w :: w' :: ws)).toList =
          w.toList ++ (sep.toList ++ (join sep (w' :: ws)).toList) := by
        rw [join, String.toList_append, String.toList_append, List.append_assoc]
        exact List.cons_ne_nil _ _
      refine ⟨⟨w, List.mem_cons_self, _, hjoin⟩, last, List.mem_cons_of_mem _ hmem,
        w.toList ++ (sep.toList ++ front), ?_⟩
      rw [hjoin, hlast, List.append_assoc, List.append_assoc]

/-! ## 8. What folding leaves alone -/

/-- Two letters are alone in their range and go to ASCII; the others stay above it. -/
theorem lowerRanges_targets : ∀ r ∈ lowerRanges,
    r.1 = r.2.1 ∧ Char.ofNat (lowerPoint r.1) ∈ ['i', 'k'] ∨
      128 ≤ r.1 + r.2.2 ∧ (r.2.1 + r.2.2 + 1 < 0xD800 ∨
        0xE000 ≤ r.1 + r.2.2 ∧ r.2.1 + r.2.2 + 1 < 0x110000) := by
  decide +kernel

theorem lower_high (hc : 128 ≤ c.toNat) : 128 ≤ (lower c).toNat ∨ lower c ∈ ['i', 'k'] := by
  rw [lower, if_neg (by omega)]
  cases hr : lowerRanges.find? fun r => r.1 ≤ c.toNat ∧ c.toNat ≤ r.2.1 with
  | none =>
    have hp : lowerPoint c.toNat = c.toNat := by
      unfold lowerPoint
      rw [hr]
    exact .inl (by simpa [hp] using hc)
  | some r =>
    obtain ⟨lo, hi, delta⟩ := r
    have hin : lo ≤ c.toNat ∧ c.toNat ≤ hi := by simpa using List.find?_some hr
    have htarget := lowerRanges_targets _ (List.mem_of_find?_eq_some hr)
    dsimp only at htarget
    rcases htarget with ⟨rfl, hascii⟩ | ⟨hlow, hvalid⟩
    · obtain rfl : c.toNat = lo := by omega
      exact .inr hascii
    · have hpoint : lo + delta ≤ lowerPoint c.toNat ∧ lowerPoint c.toNat ≤ hi + delta + 1 := by
        unfold lowerPoint
        rw [hr]
        dsimp only
        split <;> omega
      have hv : (lowerPoint c.toNat).isValidChar := by
        unfold Nat.isValidChar
        omega
      have hto : (Char.ofNat (lowerPoint c.toNat)).toNat = lowerPoint c.toNat := by
        rw [Char.ofNat, dif_pos hv]
        rfl
      omega

/-- Only an upper-case letter is changed, and it becomes a letter. -/
theorem eq_of_toLower_eq {c d : Char} (hc : ¬ ('a' ≤ c ∧ c ≤ 'z')) (h : d.toLower = c) : d = c := by
  unfold Char.toLower at h
  split at h
  · rename_i hd
    refine absurd ?_ hc
    subst h
    obtain ⟨hlo, hhi⟩ := hd
    simp only [Char.le_def, ge_iff_le, UInt32.le_iff_toNat_le, UInt32.toNat_add,
      UInt32.toNat_sub] at hlo hhi ⊢
    have hA : ('A' : Char).val.toNat = 65 := rfl
    have hZ : ('Z' : Char).val.toNat = 90 := rfl
    have ha : ('a' : Char).val.toNat = 97 := rfl
    have hz : ('z' : Char).val.toNat = 122 := rfl
    omega
  · exact h

/-- What comes before the letters is the lower case of itself only. -/
theorem eq_of_lower_eq {d : Char} (hd : d.toNat < 97) (h : lower c = d) : c = d := by
  by_cases hc : c.toNat < 128
  · rw [lower, if_pos hc] at h
    exact eq_of_toLower_eq (fun hl => absurd (UInt32.le_iff_toNat_le.mp hl.1) hd.not_ge) h
  · have hhigh := lower_high (not_lt.mp hc)
    rw [h, List.mem_cons, List.mem_singleton] at hhigh
    rcases hhigh with hhigh | rfl | rfl
    · omega
    · exact absurd hd (by decide)
    · exact absurd hd (by decide)

/-- Case is no matter to ASCII outside of the letters that others fold to. -/
theorem fold_eq_iff {d : Char} (hd : d.toNat < 128) (hne : d ∉ ['i', 'k', 's']) :
    fold c = d ↔ lower c = d := by
  unfold fold
  cases hf : foldings.find? (·.1 = c.toNat) with
  | none => rfl
  | some e =>
    have hall : ∀ e ∈ foldings, 128 ≤ e.1 ∧ (128 ≤ (Char.ofNat e.2).toNat ∨ Char.ofNat e.2 = 's') := by
      decide +kernel
    obtain ⟨hc, hn⟩ := hall _ (List.mem_of_find?_eq_some hf)
    have heq : e.1 = c.toNat := by simpa using List.find?_some hf
    rw [heq] at hc
    have hl := lower_high hc
    simp only [List.mem_cons, List.not_mem_nil, or_false, not_or] at hne hl
    constructor <;> rintro rfl
    · exact (hn.resolve_right hne.2.2).not_gt hd |>.elim
    · exact (hl.resolve_right (by tauto)).not_gt hd |>.elim

theorem fold_of_isSpace (h : isSpace c = true) : fold c = c := by
  have hmem : c.toNat ∈ [9, 10, 11, 12, 13, 32, 0x85, 0xA0, 0x1680, 0x2000, 0x2001, 0x2002, 0x2003,
      0x2004, 0x2005, 0x2006, 0x2007, 0x2008, 0x2009, 0x200A, 0x2028, 0x2029, 0x202F, 0x205F,
      0x3000] := by
    simp only [isSpace, Bool.or_eq_true, Bool.and_eq_true, decide_eq_true_eq] at h
    simp only [List.mem_cons, List.not_mem_nil, or_false]
    omega
  have hall : ∀ n ∈ [9, 10, 11, 12, 13, 32, 0x85, 0xA0, 0x1680, 0x2000, 0x2001, 0x2002, 0x2003,
      0x2004, 0x2005, 0x2006, 0x2007, 0x2008, 0x2009, 0x200A, 0x2028, 0x2029, 0x202F, 0x205F,
      0x3000], fold (Char.ofNat n) = Char.ofNat n := by decide +kernel
  simpa using hall _ hmem

end Lib.GoStrings
