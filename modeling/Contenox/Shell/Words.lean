/-
# What a word of a command line says

`shellline` reads a word in two ways.  `literalWord` gives the exact value the program will
get, and refuses every word that has anything to do with run time: a glob, an expansion, a
tilde, a backslash.  `wordName` is the LENIENT reading a denylist needs: quotes and escapes
are peeled, so that `r''m` and `\rm` are `rm`, and only a word whose value exists at run time
alone has no name.

`wordName_of_literalWord` ties the two: where the exact reading succeeds, both agree.
-/
import Contenox.Shell.Syntax

namespace Contenox.Shell

open Lib GoStrings

/-! ## 1. Escapes -/

/-- `UnescapeUnquoted` on characters: a trailing backslash is a line continuation. -/
def unescapeUnquotedChars : List Char → List Char
  | [] => []
  | ['\\'] => []
  | '\\' :: c :: cs =>
    if c = '\n' then unescapeUnquotedChars cs else c :: unescapeUnquotedChars cs
  | c :: cs => c :: unescapeUnquotedChars cs

/-- `UnescapeUnquoted`. -/
def unescapeUnquoted (s : String) : String :=
  if contains s "\\" then String.ofList (unescapeUnquotedChars s.toList) else s

/-- `UnescapeDoubleQuoted` on characters: only four characters are escaped there. -/
def unescapeDoubleQuotedChars : List Char → List Char
  | [] => []
  | ['\\'] => ['\\']
  | '\\' :: c :: cs =>
    if "$`\"\\".toList.contains c then c :: unescapeDoubleQuotedChars cs
    else if c = '\n' then unescapeDoubleQuotedChars cs
    else '\\' :: unescapeDoubleQuotedChars (c :: cs)
  | c :: cs => c :: unescapeDoubleQuotedChars cs

/-- `UnescapeDoubleQuoted`. -/
def unescapeDoubleQuoted (s : String) : String :=
  if contains s "\\" then String.ofList (unescapeDoubleQuotedChars s.toList) else s

/-- `DigitValue`, `none` for what is not a digit. -/
def digitValue (c : Char) : Option Nat :=
  if '0' ≤ c ∧ c ≤ '9' then some (c.toNat - '0'.toNat)
  else if 'a' ≤ c ∧ c ≤ 'f' then some (c.toNat - 'a'.toNat + 10)
  else if 'A' ≤ c ∧ c ≤ 'F' then some (c.toNat - 'A'.toNat + 10)
  else none

/-- The loop of `ParseEscapedNumber`: at most `more` further digits, on top of the value `n`
of the `width` digits read. -/
def escapedNumberFrom (base : Nat) : Nat → Nat → Nat → List Char → Nat × Nat
  | 0, n, width, _ => (n, width)
  | _ + 1, n, width, [] => (n, width)
  | more + 1, n, width, c :: cs =>
    match digitValue c with
    | none => (n, width)
    | some d =>
      if base ≤ d ∨ 0xff < n * base + d then (n, width)
      else escapedNumberFrom base more (n * base + d) (width + 1) cs

/-- `ParseEscapedNumber`: the value and how many digits it took; `none` without a digit. -/
def parseEscapedNumber (l : List Char) (base maxDigits : Nat) : Option (Nat × Nat) :=
  let r := escapedNumberFrom base maxDigits 0 0 l
  if r.2 = 0 then none else some r

/-- The escapes of one letter. -/
def simpleEscape (c : Char) : Option Char :=
  match c with
  | '\\' => some '\\'
  | 'a' => some (Char.ofNat 0x07)
  | 'b' => some (Char.ofNat 0x08)
  | 'e' => some (Char.ofNat 0x1b)
  | 'f' => some (Char.ofNat 0x0c)
  | 'n' => some '\n'
  | 'r' => some '\r'
  | 't' => some '\t'
  | 'v' => some (Char.ofNat 0x0b)
  | _ => none

/-- `DecodeEscapes` on characters.  Every round takes a character at least, so the length of
the text is fuel enough. -/
def decodeEscapesChars : Nat → List Char → List Char
  | 0, _ => []
  | _ + 1, [] => []
  | _ + 1, ['\\'] => ['\\']
  | fuel + 1, '\\' :: c :: cs =>
    match simpleEscape c with
    | some e => e :: decodeEscapesChars fuel cs
    | none =>
      if c = 'x' then
        match parseEscapedNumber cs 16 2 with
        | some (n, width) => Char.ofNat n :: decodeEscapesChars fuel (cs.drop width)
        | none => '\\' :: 'x' :: decodeEscapesChars fuel cs
      else if '0' ≤ c ∧ c ≤ '7' then
        -- a leading zero is not one of the three digits
        let digits := if c = '0' then cs else c :: cs
        match parseEscapedNumber digits 8 3 with
        | some (n, width) => Char.ofNat n :: decodeEscapesChars fuel (digits.drop width)
        | none => c :: decodeEscapesChars fuel cs
      else '\\' :: c :: decodeEscapesChars fuel cs
  | fuel + 1, c :: cs => c :: decodeEscapesChars fuel cs

/-- `DecodeEscapes`: what `printf` and `echo -e` would print. -/
def decodeEscapes (s : String) : String :=
  if contains s "\\" then
    String.ofList (decodeEscapesChars (s.toList.length + 1) s.toList)
  else s

/-! ## 2. The two readings of a word -/

def wordUnsafeMeta : String := "*?[]\x7b\x7d~\\$"

/-- The parts inside double quotes, read exactly. -/
def literalInner : List WordPart → Option String
  | [] => some ""
  | .lit v :: ps =>
    if contains v "\\" then none else (literalInner ps).map fun t => v ++ t
  | _ :: _ => none

/-- One part, read exactly. -/
def literalPart : WordPart → Option String
  | .lit v => if containsAny v wordUnsafeMeta then none else some v
  | .sglQuoted dollar v => if dollar then none else some v
  | .dblQuoted dollar ps => if dollar then none else literalInner ps
  | _ => none

/-- The parts of a word one after the other, by a reading of one part. -/
def concatParts (read : WordPart → Option String) : List WordPart → Option String
  | [] => some ""
  | p :: ps => (read p).bind fun s => (concatParts read ps).map fun t => s ++ t

/-- `LiteralWord`. -/
def literalWord (w : Word) : Option String :=
  if w.parts.isEmpty then none else concatParts literalPart w.parts

/-- The parts inside double quotes, read leniently. -/
def nameInner : List WordPart → Option String
  | [] => some ""
  | .lit v :: ps => (nameInner ps).map fun t => unescapeDoubleQuoted v ++ t
  | _ :: _ => none

/-- One part, read leniently. -/
def namePart : WordPart → Option String
  | .lit v => some (unescapeUnquoted v)
  | .sglQuoted dollar v => if dollar then none else some v
  | .dblQuoted _ ps => nameInner ps
  | _ => none

/-- `WordName`. -/
def wordName (w : Word) : Option String :=
  if w.parts.isEmpty then none else concatParts namePart w.parts

/-- `SoleParamName`: a word that is one parameter reference and nothing else. -/
def soleParamName (w : Word) : Option String :=
  match w.parts with
  | [.paramExp param plain _] => if plain then param else none
  | _ => none

variable {s : String} {ps : List WordPart}

theorem nameInner_of_literalInner (h : literalInner ps = some s) : nameInner ps = some s := by
  induction ps generalizing s with
  | nil => exact h
  | cons p ps ih =>
    cases p with
    | lit v =>
      by_cases hv : contains v "\\" = true
      · simp [literalInner, hv] at h
      obtain ⟨t, ht, rfl⟩ : ∃ t, literalInner ps = some t ∧ v ++ t = s := by
        simpa [literalInner, hv] using h
      simp [nameInner, ih ht, unescapeDoubleQuoted, hv]
    | _ => cases h

/-- A character in the list of characters makes `ContainsAny` true. -/
theorem not_contains_backslash {v : String}
    (h : containsAny v wordUnsafeMeta = false) : contains v "\\" = false := by
  rw [Bool.eq_false_iff] at h ⊢
  intro hc
  apply h
  obtain ⟨t, ht, hp⟩ := List.any_eq_true.mp hc
  have hmem : '\\' ∈ v.toList := ((List.mem_tails _ _).mp ht).subset
    ((List.isPrefixOf_iff_prefix.mp hp).subset List.mem_cons_self)
  exact List.any_eq_true.mpr ⟨'\\', hmem, by decide⟩

theorem namePart_of_literalPart {p : WordPart} (h : literalPart p = some s) :
    namePart p = some s := by
  cases p with
  | lit v =>
    by_cases hv : containsAny v wordUnsafeMeta = true
    · simp [literalPart, hv] at h
    have hb := not_contains_backslash (Bool.eq_false_iff.mpr hv)
    obtain rfl : v = s := by simpa [literalPart, hv] using h
    simp [namePart, unescapeUnquoted, hb]
  | sglQuoted d v => exact h
  | dblQuoted d ps =>
    cases d with
    | true => simp [literalPart] at h
    | false => exact nameInner_of_literalInner (by simpa [literalPart] using h)
  | _ => cases h

theorem concatParts_mono {read read' : WordPart → Option String}
    (hread : ∀ p s, read p = some s → read' p = some s) (h : concatParts read ps = some s) :
    concatParts read' ps = some s := by
  induction ps generalizing s with
  | nil => exact h
  | cons p ps ih =>
    obtain ⟨a, ha, t, ht, rfl⟩ : ∃ a, read p = some a ∧
        ∃ t, concatParts read ps = some t ∧ a ++ t = s := by
      simpa [concatParts, Option.bind_eq_some_iff] using h
    simp [concatParts, hread p a ha, ih ht]

/-- **Where the exact reading succeeds, the lenient one agrees.** -/
theorem wordName_of_literalWord {w : Word} (h : literalWord w = some s) : wordName w = some s := by
  unfold literalWord at h
  unfold wordName
  split at h
  · cases h
  rename_i hne
  rw [if_neg hne]
  exact concatParts_mono (fun _ _ => namePart_of_literalPart) h

theorem wordName_of_literalWord_rm : wordName ⟨[.lit "r", .sglQuoted false "m"]⟩ = some "rm" :=
  wordName_of_literalWord (by decide +kernel)

end Contenox.Shell
