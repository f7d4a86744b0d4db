/-
# How long an ask waits

A rule states its wait in seconds, the code holds it in nanoseconds, in 64 bits, and a negative
wait has no deadline.  Loading a policy does not bound `timeout_s` from above (vetting does), so the
product can wrap, and an ask with a deadline then has none (`long_wait_never_expires`).
`waits_sound_iff` says up to where the waits are what the rules say.
-/
import Contenox.Lib.GoDuration
import Contenox.Policy.Document
import Contenox.Policy.Vet
import Mathlib.Algebra.Group.Int.Defs

namespace Contenox.Hitl

open Lib GoStrings

/-- A `time.Duration`: what 64 bits keep of the number. -/
def duration (n : Int) : Int := (n + 2 ^ 63) % 2 ^ 64 - 2 ^ 63

/-- `time.Second`. -/
def second : Int := 1000000000

def waitIndefinite : Int := -1

def indefinite (wait : Int) : Bool := wait < 0

def waitOf (timeoutS : Int) : Int :=
  if timeoutS < 0 then waitIndefinite else duration (timeoutS * second)

def fallbackApprovalCeiling : Int := maxRuleTimeoutS * second

/-- `askWait`, with the ceiling of a policy service that has one. -/
def askWait (approvalCeiling : Option Int) (timeoutS : Int) : Int :=
  if timeoutS ≠ 0 then waitOf timeoutS else approvalCeiling.getD fallbackApprovalCeiling

def indefiniteSpellings : List String := ["never", "forever", "indefinite"]

def isIndefiniteWord (s : String) : Bool := indefiniteSpellings.contains (toLower (trimSpace s))

section Texts

variable (fraction : GoDuration.Fraction) (quote : String → String)

/-- `Duration.String`; only whole seconds are written here. -/
def durationText (wait : Int) : String := GoDuration.text (wait / second).toNat

def parseWait (s : String) : Except String Int :=
  let raw := trimSpace s
  let spellings := join ", " indefiniteSpellings
  if isIndefiniteWord raw then .ok waitIndefinite
  else
    match GoDuration.parseDuration fraction raw with
    | none => .error (quote s ++ " is not a wait — write a duration the way Go writes one (90s, "
        ++ "30m, 2h), or one of " ++ spellings ++ " for an ask that waits until it is answered")
    | some d =>
      if d < 0 then .error (quote s ++ ": a wait cannot run backwards; write one of " ++ spellings
        ++ " for an ask with no deadline")
      else if d = 0 then .error (quote s ++ " states no wait at all; write one of " ++ spellings
        ++ " for an ask that waits until it is answered")
      else if d % second ≠ 0 then .error (quote s ++ " carries sub-second precision, which would "
        ++ "be truncated to " ++ durationText (d - d % second) ++ " — write the wait you mean")
      else if maxRuleTimeoutS * second < d then .error (quote s ++ " is longer than the " ++
        durationText (maxRuleTimeoutS * second) ++ " a wait accepts — write one of " ++ spellings ++
        " rather than a number that means it")
      else .ok d

end Texts

def formatWait (wait : Int) : String :=
  if indefinite wait then "never" else durationText wait

/-- The wait is one, it ends, and a longer timeout does not shorten it. -/
structure SoundWait (ceiling : Option Int) (timeoutS : Int) : Prop where
  positive : 0 < askWait ceiling timeoutS
  finite : indefinite (askWait ceiling timeoutS) = false
  longest : ∀ s, 0 < s → s ≤ timeoutS → askWait ceiling s ≤ askWait ceiling timeoutS

/-- The seconds of the longest duration. -/
def maxSeconds : Int := 9223372036

theorem askWait_eq (ceiling : Option Int) {n : Int} (hpos : 0 < n) (hn : n ≤ maxSeconds) :
    askWait ceiling n = n * second := by
  unfold maxSeconds at hn
  unfold askWait waitOf duration second
  rw [if_pos (by omega), if_neg (by omega)]
  omega

theorem soundWait (ceiling : Option Int) {n : Int} (hpos : 0 < n) (hn : n ≤ maxSeconds) :
    SoundWait ceiling n := by
  have hwait := askWait_eq ceiling hpos hn
  refine ⟨?_, ?_, fun s hs hle => ?_⟩
  · rw [hwait]
    exact Int.mul_pos hpos (by decide)
  · rw [hwait, indefinite, decide_eq_false_iff_not]
    unfold second
    omega
  · rw [hwait, askWait_eq ceiling hs (Int.le_trans hle hn)]
    unfold second
    omega

variable {fraction : GoDuration.Fraction} {quote : String → String} {s : String} {d : Int}

theorem parseWait_ok (h : parseWait fraction quote s = .ok d) : d = waitIndefinite ∨
    0 < d ∧ d % second = 0 ∧ d ≤ maxRuleTimeoutS * second := by
  unfold parseWait at h
  dsimp only at h
  split at h
  · cases h
    exact .inl rfl
  split at h
  · cases h
  split_ifs at h with hneg hzero hsub hmax
  cases h
  exact .inr ⟨by omega, by omega, by omega⟩

/-- A written duration is no word for a wait without end, and has no blanks around it. -/
theorem text_plain (n : Nat) : trimSpace (GoDuration.text n) = GoDuration.text n ∧
    isIndefiniteWord (GoDuration.text n) = false := by
  have htrim := trimSpace_of_no_space (GoDuration.isSpace_text n)
  refine ⟨htrim, ?_⟩
  obtain ⟨d, d', ds, hcons, hdigit⟩ := GoDuration.text_cons n
  have hfirst : (toLower (GoDuration.text n)).toList.head? = some (lower d) := by
    simp [toLower, hcons]
  have hdigits : ∀ k ∈ List.range' 48 10, ∀ w ∈ indefiniteSpellings,
      w.toList.head? ≠ some (lower (Char.ofNat k)) := by decide +kernel
  have hbounds := GoStrings.isDigit_toNat hdigit
  have hd := hdigits d.toNat (List.mem_range'_1.mpr (by omega))
  rw [Char.ofNat_toNat] at hd
  refine Bool.eq_false_iff.mpr fun hmem => ?_
  rw [isIndefiniteWord, htrim, List.contains_iff_mem] at hmem
  exact hd _ hmem hfirst

/-- What a wait is written as is read back. -/
theorem parseWait_formatWait (h : parseWait fraction quote s = .ok d) :
    parseWait fraction quote (formatWait d) = .ok d := by
  obtain rfl | ⟨hpos, hsecond, hmax⟩ := parseWait_ok h
  · have hformat : formatWait waitIndefinite = "never" := rfl
    have hword : isIndefiniteWord (trimSpace "never") = true := by decide +kernel
    rw [hformat, parseWait, if_pos hword]
  have hformat : formatWait d = GoDuration.text (d / second).toNat :=
    if_neg (by simpa [indefinite] using Int.le_of_lt hpos)
  obtain ⟨htrim, hword⟩ := text_plain (d / second).toNat
  have hparse : GoDuration.parseDuration fraction (GoDuration.text (d / second).toNat) = some d := by
    have hd : (((d / second).toNat * GoDuration.second : Nat) : Int) = d := by
      unfold second GoDuration.second at *
      omega
    have hfit : (d / second).toNat * GoDuration.second < 2 ^ 63 := by
      unfold second GoDuration.second maxRuleTimeoutS at *
      omega
    rw [GoDuration.parse_text hfit, hd]
  unfold parseWait
  simp only [hformat, htrim, hword, hparse]
  rw [if_neg Bool.false_ne_true, if_neg (by omega), if_neg (by omega), if_neg (by omega),
    if_neg (by omega)]

/-- A policy with one rule, which asks and waits. -/
def askFor (timeoutS : Int) : Policy := ⟨none, [⟨"", "", [], .approve, timeoutS, none⟩], none⟩

/-- **The waits are what the rules say**, of every policy that loads, up to the seconds that 64 bits of
nanoseconds hold, and not further; and a wait is read back as it was written. -/
theorem waits_sound_iff (quote : String → String) (validateGlobValue : String → Option String)
    (fraction : GoDuration.Fraction) (ceiling : Option Int) (bound : Int) :
    ((∀ p, validateRules quote validateGlobValue p = none → ∀ r ∈ p.rules, 0 < r.timeoutS →
        r.timeoutS ≤ bound → SoundWait ceiling r.timeoutS) ↔ bound ≤ maxSeconds) ∧
      ∀ s d, parseWait fraction quote s = .ok d →
        parseWait fraction quote (formatWait d) = .ok d := by
  refine ⟨⟨fun h => ?_, fun h p _ r _ hpos hle => soundWait ceiling hpos (Int.le_trans hle h)⟩,
    fun s d => parseWait_formatWait⟩
  by_contra hlt
  have hbound : maxSeconds + 1 ≤ bound := by omega
  have := (h (askFor (maxSeconds + 1)) rfl _
    (List.mem_singleton_self _) (by decide) hbound).positive
  cases this

/-- A wait of 292 years loads and is held for one without a deadline. -/
theorem long_wait_never_expires :
    validateRules id (fun _ => none) (askFor 9223372037) = none ∧
      indefinite (askWait none 9223372037) = true := by
  decide

/-- An hour and a half, written and read. -/
theorem waits_sound_iff_hour : SoundWait none 5400 ∧
    formatWait (5400 * second) = "1h30m0s" ∧
    parseWait (fun _ _ => 0) id "90m" = .ok (5400 * second) ∧
    parseWait (fun _ _ => 0) id (formatWait (5400 * second)) = .ok (5400 * second) := by
  have hread : parseWait (fun _ _ => 0) id "90m" = .ok (5400 * second) := by decide +kernel
  have hsound := waits_sound_iff id (fun _ => none) (fun _ _ => 0) none 5400
  exact ⟨hsound.1.mpr (by decide) (askFor 5400) (by decide) _ (List.mem_singleton_self _)
    (by decide) (by decide), by decide +kernel, hread, hsound.2 _ _ hread⟩

end Contenox.Hitl
