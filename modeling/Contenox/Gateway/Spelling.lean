/-
# When two names are one model

The resolver compares normalized names.  What that is to find out is whether the LAST segments
agree, up to letter case, separators, quantization markers and the version.  It does for names of
at most two segments (`named_candidates_agree`).  Beyond them it does not: the normalization takes
the SECOND segment for the last one, and "lab/phi/x" answers to a request for "lab/phi/y".
-/
import Contenox.Gateway.Resolver

namespace Contenox.Gateway

open Lib Lib.GoStrings

/-- A text in lower case, without the separators. -/
def squeezed (l : List Char) : List Char :=
  (l.map lower).filter fun c => c ∉ ['.', '_', '-', ' ']

def quantizationMarkers : List String := ["awq", "gptq", "4bit", "fp16"]

/-- What counts of a segment: its letters, without the markers and the version. -/
def segmentForm (segment : String) : List Char :=
  beforeLast ':' (quantizationMarkers.foldl (fun s marker => replaceAll s marker "")
    (String.ofList (squeezed segment.toList))).toList

/-- Two names agree in the last segment. -/
def SameModel (name name' : String) : Prop :=
  segmentForm ((split name '/').getLastD "") = segmentForm ((split name' '/').getLastD "")

instance (name name' : String) : Decidable (SameModel name name') :=
  inferInstanceAs (Decidable (_ = _))

theorem toList_replaceAll_char (s new : String) (c : Char) :
    (replaceAll s (String.singleton c) new).toList =
      s.toList.flatMap fun x => if x = c then new.toList else [x] := by
  have key : ∀ l : List Char, replaceFrom [c] new.toList 0 l =
      l.flatMap fun x => if x = c then new.toList else [x] := by
    intro l
    induction l with
    | nil => rfl
    | cons x l ih =>
      rw [replaceFrom, List.flatMap_cons]
      by_cases hx : x = c
      · subst hx
        simp [ih]
      have hc : ([c].isPrefixOf (x :: l)) = false := by
        simp [List.isPrefixOf, Ne.symm hx]
      rw [hc, if_neg (by simp), if_neg hx, ih]
      rfl
  rw [replaceAll, String.toList_ofList, String.toList_singleton, key]

theorem toList_erase (s : String) (c : Char) :
    (replaceAll s (String.singleton c) "").toList = s.toList.filter (· ≠ c) := by
  rw [toList_replaceAll_char]
  induction s.toList with
  | nil => rfl
  | cons x l ih =>
    rw [List.flatMap_cons, ih, List.filter_cons]
    by_cases h : x = c <;> simp [h]

theorem toList_squeezed (s : String) : (replaceAll (replaceAll (replaceAll (replaceAll
      (toLower s) " " "") "-" "") "_" "") "." "").toList = squeezed s.toList := by
  have h1 : (" " : String) = String.singleton ' ' := rfl
  have h2 : ("-" : String) = String.singleton '-' := rfl
  have h3 : ("_" : String) = String.singleton '_' := rfl
  have h4 : ("." : String) = String.singleton '.' := rfl
  rw [h1, h2, h3, h4]
  simp only [toList_erase, toLower, String.toList_ofList, List.filter_filter, squeezed]
  congr 1
  funext c
  simp

theorem squeezed_append (a b : List Char) : squeezed (a ++ b) = squeezed a ++ squeezed b := by
  simp [squeezed]

/-- No slash comes or goes, so the segments of the squeezed text are the squeezed segments. -/
theorem splitFrom_squeezed (cur l : List Char) :
    splitFrom '/' (squeezed cur) (squeezed l) = (splitFrom '/' cur l).map squeezed := by
  induction l generalizing cur with
  | nil => rfl
  | cons c l ih =>
    by_cases hc : c = '/'
    · subst hc
      exact congrArg (squeezed cur :: ·) (ih [])
    have hlower : lower c ≠ '/' := fun h => hc (eq_of_lower_eq (by decide) h)
    have hnot : '/' ∉ squeezed [c] := by simp [squeezed, hlower.symm]
    rw [splitFrom, if_neg hc, ← ih, squeezed_append, ← List.singleton_append, squeezed_append,
      splitFrom_append hnot]

/-- **With at most two segments, the second is the last.** -/
theorem toList_normalizeModelName {name : String} (h : (split name '/').length ≤ 2) :
    (normalizeModelName name).toList = segmentForm ((split name '/').getLastD "") := by
  have horg : afterOrganisation (replaceAll (replaceAll (replaceAll (replaceAll
      (toLower name) " " "") "-" "") "_" "") "." "") =
      String.ofList (squeezed ((split name '/').getLastD "").toList) := by
    have hsplit := splitFrom_squeezed [] name.toList
    rw [← toList_squeezed] at hsplit
    unfold afterOrganisation split
    unfold split at h
    rw [show ([] : List Char) = squeezed [] from rfl, hsplit]
    match hl : splitFrom '/' [] name.toList with
    | [] => exact absurd hl (splitFrom_ne_nil _ _ _)
    | [x] =>
      obtain rfl := eq_of_splitFrom hl
      simp [← toList_squeezed]
    | [a, b] => simp
    | a :: b :: c :: rest => simp [hl] at h
  rw [normalizeModelName, String.toList_ofList, horg]
  rfl

/-- **What the resolver finds for the names of a request**: providers that can, each once, and
within two segments none of another model. -/
theorem named_candidates_agree {quote : String → String} {req : ResolverRequest}
    {providers candidates : List Provider} {capCheck : Provider → Bool}
    (hne : req.modelNames ≠ [])
    (h : filterCandidates quote req providers capCheck = .ok candidates) :
    (candidates.map candidateKey).Nodup ∧ ∀ p ∈ candidates, capCheck p = true ∧
      ¬ (0 < p.contextLength ∧ p.contextLength < req.contextLength) ∧
      ((split p.modelName '/').length ≤ 2 →
        (∀ name ∈ req.modelNames, (split name '/').length ≤ 2) →
          ∃ name ∈ req.modelNames, SameModel p.modelName name) := by
  obtain rfl := candidatesFor_of_ok h
  refine candidatesFor_keeps hne fun name hname p hp hmatch hvalid => ?_
  unfold validateProvider at hvalid
  split at hvalid
  · cases hvalid
  next hcontext =>
  refine ⟨hvalid, fun hlow => hcontext ⟨by omega, hlow⟩, fun hp hn => ⟨name, hname, ?_⟩⟩
  rw [matchesName, Bool.or_eq_true, decide_eq_true_iff, decide_eq_true_iff] at hmatch
  rcases hmatch with hnorm | hfull
  · rw [SameModel, ← toList_normalizeModelName hp, hnorm,
      toList_normalizeModelName (hn name hname)]
  · rw [hfull]
    rfl

/-! ### A name with three segments -/

def labProvider (name : String) : Provider :=
  ⟨"p", name, "ollama", ["b1"], 0, true, true, true, true, false, false⟩

def labRequest (name : String) : ResolverRequest := ⟨[], [name], 0, false, false⟩

theorem third_segment_confused :
    filterCandidates id (labRequest "lab/phi/x") [labProvider "lab/phi/y"] (·.canChat) =
      .ok [labProvider "lab/phi/y"] ∧ ¬ SameModel "lab/phi/y" "lab/phi/x" := by
  constructor <;> decide +kernel

theorem named_candidates_agree_lab :
    filterCandidates id (labRequest "lab/phi4") [labProvider "lab/Phi-4:q8"] (·.canChat) =
      .ok [labProvider "lab/Phi-4:q8"] ∧ SameModel "lab/Phi-4:q8" "lab/phi4" := by
  have hfound : filterCandidates id (labRequest "lab/phi4") [labProvider "lab/Phi-4:q8"]
      (·.canChat) = .ok [labProvider "lab/Phi-4:q8"] := by decide +kernel
  obtain ⟨-, -, hsame⟩ := (named_candidates_agree (by decide) hfound).2 _ List.mem_cons_self
  obtain ⟨name, hname, hsame⟩ := hsame (by decide +kernel) (by decide +kernel)
  cases List.mem_singleton.mp hname
  exact ⟨hfound, hsame⟩

end Contenox.Gateway
