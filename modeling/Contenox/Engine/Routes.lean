/-
# Which route an answer names

An answer may name a route among other words.  The first route that stands anywhere in the answer
is selected, also where it is a piece of a longer word.  So a route that is part of another one and
declared before it takes its answers (`piece_wins`), and the order of the declarations decides.

An answer that names exactly one route selects it in EVERY order iff it is that route, or no other
one stands anywhere in it (`selectRoute_any_order_iff`).
-/
import Contenox.Engine.TaskExec

namespace Contenox.Engine

open Lib.GoStrings

/-- The label stands in the answer, in either case, with no character of a word on its sides. -/
def named (word : Char → Bool) (answer label : String) : Bool :=
  let text := answer.toList.map fold
  let label := label.toList.map fold
  (List.range (text.length + 1)).any fun n =>
    label.isPrefixOf (text.drop n) && (text.take n).getLast?.all (! word ·) &&
      (text.drop (n + label.length)).head?.all (! word ·)

variable {word : Char → Bool} {answer label : String} {routes : List String}

/-- An answer that is nothing but the label names it. -/
theorem named_of_equalFold (hspace : ∀ c, isSpace c = true → word c = false)
    (h : equalFold (trimSpace answer) label = true) : named word answer label = true := by
  obtain ⟨front, back, htext, hblank⟩ := trimSpace_split answer
  have hlabel : (trimSpace answer).toList.map fold = label.toList.map fold := of_decide_eq_true h
  have hfolded : answer.toList.map fold =
      front.map fold ++ (label.toList.map fold ++ back.map fold) := by
    rw [htext, List.map_append, List.map_append, hlabel]
  have hside : ∀ c ∈ (front ++ back).map fold, word c = false := by
    intro c hc
    obtain ⟨d, hd, rfl⟩ := List.mem_map.mp hc
    rw [fold_of_isSpace (hblank d hd)]
    exact hspace d (hblank d hd)
  unfold named
  rw [List.any_eq_true]
  have hin : front.length < (answer.toList.map fold).length + 1 := by
    rw [hfolded, List.length_append, List.length_map]
    omega
  refine ⟨front.length, List.mem_range.mpr hin, ?_⟩
  rw [hfolded, List.drop_left' (by simp), List.take_left' (by simp), ← List.append_assoc,
    List.drop_left' (by simp)]
  simp only [Bool.and_eq_true, Option.all_eq_true, List.isPrefixOf_iff_prefix, Bool.not_eq_true']
  refine ⟨⟨List.prefix_append _ _, fun c hc => hside c ?_⟩, fun c hc => hside c ?_⟩
  · rw [List.map_append]
    exact List.mem_append_left _ (List.mem_of_getLast? hc)
  · rw [List.map_append]
    exact List.mem_append_right _ (List.mem_of_head? hc)

/-- The route is a piece of the answer, in either case. -/
def occurs (answer route : String) : Bool := contains (toLower (trimSpace answer)) (toLower route)

theorem selectRoute_eq (answer : String) (routes : List String) :
    selectRoute answer routes = ((routes.find? (equalFold (trimSpace answer) ·)).or
      (routes.find? (occurs answer))).getD (trimSpace answer) := by
  unfold selectRoute
  dsimp only
  cases routes.find? (equalFold (trimSpace answer) ·) with
  | some r => rfl
  | none =>
    unfold occurs
    cases routes.find? fun r => contains (toLower (trimSpace answer)) (toLower r) <;> rfl

/-- An answer that is the one route it names selects it. -/
theorem selectRoute_of_equalFold (hlabel : label ∈ routes)
    (hone : ∀ r ∈ routes, equalFold (trimSpace answer) r = true → r = label)
    (h : equalFold (trimSpace answer) label = true) : selectRoute answer routes = label := by
  obtain ⟨r, hr⟩ := Option.isSome_iff_exists.mp (List.find?_isSome.mpr ⟨label, hlabel, h⟩)
  rw [selectRoute_eq, hr]
  exact hone r (List.mem_of_find?_eq_some hr) (List.find?_some hr)

/-- **The route an answer names.**  Of the declared routes the answer names exactly one.  It is
selected in every order of the declarations iff the answer is that route, or the route is the only
one that stands in the trimmed answer, be it as a piece of a word. -/
theorem selectRoute_any_order_iff (hspace : ∀ c, isSpace c = true → word c = false)
    (hlabel : label ∈ routes) (hone : ∀ r ∈ routes, named word answer r = true ↔ r = label) :
    (∀ declared : List String, declared.Perm routes → selectRoute answer declared = label) ↔
      equalFold (trimSpace answer) label = true ∨
        ∀ r ∈ routes, occurs answer r = true ↔ r = label := by
  have honly : ∀ r ∈ routes, equalFold (trimSpace answer) r = true → r = label :=
    fun r hr h => (hone r hr).mp (named_of_equalFold hspace h)
  by_cases hequal : equalFold (trimSpace answer) label = true
  · refine ⟨fun _ => .inl hequal, fun _ declared hperm => ?_⟩
    exact selectRoute_of_equalFold (hperm.mem_iff.mpr hlabel)
      (fun r hr => honly r (hperm.mem_iff.mp hr)) hequal
  rw [or_iff_right hequal]
  -- no route is the whole answer, so the first one in it is selected
  have hselect : ∀ declared : List String, declared.Perm routes →
      selectRoute answer declared = (declared.find? (occurs answer)).getD (trimSpace answer) := by
    intro declared hperm
    have hnone : declared.find? (equalFold (trimSpace answer) ·) = none :=
      List.find?_eq_none.mpr fun r hr h =>
        hequal (honly r (hperm.mem_iff.mp hr) h ▸ h)
    rw [selectRoute_eq, hnone, Option.none_or]
  constructor
  · intro hall r hr
    constructor
    · -- declared first, a route that stands in the answer is selected
      intro hoccurs
      have hfirst := hall _ (List.perm_cons_erase hr).symm
      rwa [hselect _ (List.perm_cons_erase hr).symm, List.find?_cons_of_pos hoccurs] at hfirst
    · rintro rfl
      have hsame := hall routes (List.Perm.refl _)
      rw [hselect routes (List.Perm.refl _)] at hsame
      cases hfind : routes.find? (occurs answer) with
      | some q =>
        rw [hfind] at hsame
        exact hsame ▸ List.find?_some hfind
      | none =>
        rw [hfind] at hsame
        exact absurd (by simp [equalFold, ← hsame]) hequal
  · intro hpiece declared hperm
    have hmem := hperm.mem_iff.mpr hlabel
    obtain ⟨r, hr⟩ := Option.isSome_iff_exists.mp
      (List.find?_isSome.mpr ⟨label, hmem, (hpiece label hlabel).mpr rfl⟩)
    rw [hselect declared hperm, hr]
    exact (hpiece r (hperm.mem_iff.mp (List.mem_of_find?_eq_some hr))).mp (List.find?_some hr)

/-- Neither white space nor punctuation. -/
def isWord (c : Char) : Bool := ! isSpace c && ! ".,:;!?()".toList.contains c

theorem isWord_of_isSpace {c : Char} (h : isSpace c = true) : isWord c = false := by
  simp [isWord, h]

theorem selectRoute_any_order_iff_accented :
    selectRoute "I think: RÉSUMÉ." ["code_task", "résumé"] = "résumé" ∧
      selectRoute "I think: RÉSUMÉ." ["résumé", "code_task"] = "résumé" := by
  have hall := (selectRoute_any_order_iff (fun _ => isWord_of_isSpace) (by decide +kernel)
    (by decide +kernel)).mpr (.inr (by decide +kernel :
      ∀ r ∈ ["code_task", "résumé"], occurs "I think: RÉSUMÉ." r = true ↔ r = "résumé"))
  exact ⟨hall _ (List.Perm.refl _), hall _ (List.Perm.swap _ _ _)⟩

/-- The answer names one route as a word of its own, and another one is selected. -/
theorem piece_wins : (∀ r ∈ ["ask", "task"], named isWord "A task." r = true ↔ r = "task") ∧
    selectRoute "A task." ["ask", "task"] = "ask" := by
  decide +kernel

end Contenox.Engine
