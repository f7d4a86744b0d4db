/-
# Glob patterns of a policy condition

`globMatch` of `hitlservice/policy.go`: braces are expanded first, `**` stands for any number
of whole path elements, and everything else goes to `path.Match`, which belongs to Go's
library and is a parameter.

The two loops of the source that are not loops over a list run on fuel: a round of brace
expansion takes a brace away from every pattern it changes, and a `**` is cut off the pattern
before the next one is looked for.
-/
import Contenox.Lib.GoStrings

namespace Contenox.Hitl

open Lib

/-! ## 1. Braces -/

/-- From just after an open brace: the text up to the brace that closes it, and the rest. -/
def closeBrace (depth : Nat) (inner : List Char) : List Char → Option (List Char × List Char)
  | [] => none
  | c :: cs =>
    if c = '{' then closeBrace (depth + 1) (inner ++ [c]) cs
    else if c = '}' then
      match depth with
      | 0 => some (inner, cs)
      | d + 1 => closeBrace d (inner ++ [c]) cs
    else closeBrace depth (inner ++ [c]) cs

/-- `firstBracePair`: what is before, inside and after the first brace that is closed. -/
def firstBracePair (before : List Char) :
    List Char → Option (List Char × List Char × List Char)
  | [] => none
  | c :: cs =>
    if c = '{' then
      match closeBrace 0 [] cs with
      | some (inner, after) => some (before, inner, after)
      | none => firstBracePair (before ++ [c]) cs
    else firstBracePair (before ++ [c]) cs

def splitTopLevelCommas (depth : Int) (part : List Char) : List Char → List (List Char)
  | [] => [part]
  | c :: cs =>
    if c = '{' then splitTopLevelCommas (depth + 1) (part ++ [c]) cs
    else if c = '}' then splitTopLevelCommas (depth - 1) (part ++ [c]) cs
    else if c = ',' ∧ depth = 0 then part :: splitTopLevelCommas depth [] cs
    else splitTopLevelCommas depth (part ++ [c]) cs

/-- The alternatives of the first brace pair of a pattern; `none` without one. -/
def braceAlternatives (p : String) : Option (List String) :=
  (firstBracePair [] p.toList).map fun (before, inner, after) =>
    (splitTopLevelCommas 0 [] inner).map fun alt => String.ofList (before ++ alt ++ after)

def maxGlobExpansions : Nat := 4096

/-- The rounds of `expandGlobBraces`. -/
def expandRounds : Nat → List String → List String
  | 0, out => out
  | fuel + 1, out =>
    let next := out.flatMap fun p => (braceAlternatives p).getD [p]
    if out.all fun p => (braceAlternatives p).isNone then next
    else if maxGlobExpansions < next.length then next.take maxGlobExpansions
    else expandRounds fuel next

def expandGlobBraces (pattern : String) : List String :=
  expandRounds (pattern.toList.length + 1) [pattern]

/-! ## 2. Matching -/

/-- The text before and after the first `**`. -/
def cutDoubleStar (before : List Char) : List Char → Option (List Char × List Char)
  | '*' :: '*' :: cs => some (before, cs)
  | c :: cs => cutDoubleStar (before ++ [c]) cs
  | [] => none

/-- `strings.TrimSuffix(s, "/")`. -/
def dropTrailingSlash (l : List Char) : List Char :=
  if l.getLast? = some '/' then l.dropLast else l

/-- `strings.TrimPrefix(s, "/")`. -/
def dropLeadingSlash (l : List Char) : List Char :=
  if l.head? = some '/' then l.drop 1 else l

/-- `s`, and what follows each of its slashes. -/
def slashTails (s : List Char) : List (List Char) :=
  s :: match s with
    | [] => []
    | c :: cs => if c = '/' then slashTails cs else (slashTails cs).tail

section
variable (pathMatch : String → String → Bool)

/-- `matchSuffix` and `matchDoubleGlob`. -/
def matchSuffix : Nat → List Char → List Char → Bool
  | 0, _, _ => false
  | fuel + 1, pattern, s =>
    match cutDoubleStar [] pattern with
    | none => pathMatch (String.ofList pattern) (String.ofList s)
    | some (start, rest) =>
      let head := dropTrailingSlash start
      let after := dropLeadingSlash rest
      let search (s : List Char) : Bool :=
        after.isEmpty || (slashTails s).any fun t => matchSuffix fuel after t
      if head.isEmpty then search s
      else if s = head then after.isEmpty
      else if (head ++ ['/']).isPrefixOf s then search (s.drop (head.length + 1))
      else false

def globMatchOne (pattern s : String) : Bool :=
  let pattern := GoStrings.clean pattern
  if GoStrings.containsAny pattern "*?[" then
    matchSuffix pathMatch (pattern.toList.length + 1) pattern.toList s.toList
  else pattern = s

def globMatch (pattern s : String) : Bool :=
  (expandGlobBraces pattern).any fun p => globMatchOne pathMatch p (GoStrings.clean s)

end

end Contenox.Hitl
